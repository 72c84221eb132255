import Mathlib.Data.List.DropRight
import Mathlib.Data.List.Induction
import Scrapscript.Proofs.Text.Column

/-!
Lines of a text. The pass that makes the index knows, after each character, the lines that are
complete and the line at hand; from that the index has every line of the text in its place.
-/

namespace Scrapscript

namespace Text

/-- The text after its last line break. -/
def lastLine (text : Text) : Text :=
  text.rtakeWhile (· != '\n')

/-- The text up to and with its last line break. -/
def earlierLines (text : Text) : Text :=
  text.rdropWhile (· != '\n')

theorem earlierLines_append_lastLine (text : Text) : text.earlierLines ++ text.lastLine = text :=
  List.rdropWhile_append_rtakeWhile

theorem notMem_break_iff {text : Text} : '\n' ∉ text ↔ ∀ char ∈ text, (char != '\n') = true := by
  simp only [bne_iff_ne]
  exact ⟨fun absent char listed newline => absent (newline ▸ listed),
    fun plain listed => plain _ listed rfl⟩

theorem notMem_lastLine (text : Text) : '\n' ∉ text.lastLine :=
  notMem_break_iff.mpr fun _ listed => List.mem_rtakeWhile_imp (p := (· != '\n')) listed

section

variable {more : Text} (text : Text) (plain : '\n' ∉ more)

include plain

theorem accepted_reverse : ∀ char ∈ more.reverse, (char != '\n') = true := by
  intro char listed
  exact notMem_break_iff.mp plain char (List.mem_reverse.mp listed)

theorem lastLine_append : lastLine (text ++ more) = text.lastLine ++ more := by
  simp only [lastLine, List.rtakeWhile, List.reverse_append, List.reverse_reverse,
    List.takeWhile_append_of_pos (accepted_reverse plain)]

theorem earlierLines_append : earlierLines (text ++ more) = text.earlierLines := by
  simp only [earlierLines, List.rdropWhile, List.reverse_append,
    List.dropWhile_append_of_pos (accepted_reverse plain)]

end

theorem lastLine_break (text : Text) : lastLine (text ++ ['\n']) = [] :=
  List.rtakeWhile_concat_neg _ _ _ (by simp)

theorem earlierLines_break (text : Text) : earlierLines (text ++ ['\n']) = text ++ ['\n'] :=
  List.rdropWhile_concat_neg _ _ _ (by simp)

/-- Where an editor stands at the end of a text: the number of its line breaks, and the UTF-16 units
after the last of them. -/
def endPosition (text : Text) : Position :=
  ⟨text.count '\n', text.lastLine.units⟩

/-- With more text the position gets later. -/
theorem endPosition_lt {more : Text} (text : Text) (some : more ≠ []) :
    text.endPosition < endPosition (text ++ more) := by
  by_cases broken : '\n' ∈ more
  · have breaks : 0 < more.count '\n' := List.count_pos_iff.mpr broken
    left
    simp only [endPosition, List.count_append]
    omega
  · have flat : more.count '\n' = 0 := List.count_eq_zero.mpr broken
    right
    simp only [endPosition, List.count_append, lastLine_append text broken, units_append, flat]
    cases more with
    | nil => contradiction
    | cons char rest =>
        have positive := unitsOf_pos char
        simp only [units]
        omega

/-- A line in its text: what stands before it, its content, and what stands from its end on. -/
structure Divides (text head content tail : Text) : Prop where
  split : text = head ++ content ++ tail
  opens : head.lastLine = []
  plain : '\n' ∉ content
  closes : tail.takeWhile (· != '\n') = []

/-- Each place of a text lies on a line. -/
theorem divides_at (before after : Text) :
    Divides (before ++ after) before.earlierLines
      (before.lastLine ++ after.takeWhile (· != '\n')) (after.dropWhile (· != '\n')) := by
  refine ⟨?_, ?_, ?_, ?_⟩
  · rw [← List.append_assoc, earlierLines_append_lastLine, List.append_assoc,
      List.takeWhile_append_dropWhile]
  · have nothing : before.earlierLines.earlierLines = before.earlierLines :=
      List.rdropWhile_idempotent _ _
    have whole := earlierLines_append_lastLine before.earlierLines
    rw [nothing] at whole
    exact List.append_cancel_left (whole.trans (List.append_nil _).symm)
  · rw [List.mem_append, not_or]
    exact ⟨notMem_lastLine before, notMem_break_iff.mpr fun _ listed =>
      List.mem_takeWhile_imp (p := (· != '\n')) listed⟩
  · cases rest : after.dropWhile (· != '\n') with
    | nil => rfl
    | cons char rest' =>
        have stopped := List.head_dropWhile_not (· != '\n') (l := after) (by simp [rest])
        simp_all

variable {text head content tail : Text}

/-- The beginnings of a text that end on a line are those that end in its content. -/
theorem Divides.exists_of_begins (divides : Divides text head content tail) {before : Text}
    (begins : before <+: text) (same : before.count '\n' = head.count '\n') :
    ∃ first, first <+: content ∧ before = head ++ first := by
  have opening : head <+: text := by
    rw [divides.split, List.append_assoc]
    exact List.prefix_append _ _
  rcases List.prefix_or_prefix_of_prefix begins opening with ⟨more, rest⟩ | ⟨first, rfl⟩
  · -- A line break stands at the end of the head, so that nothing is missing.
    have plain : '\n' ∉ more := by
      rw [← rest, List.count_append] at same
      exact List.count_eq_zero.mp (by omega)
    have none := divides.opens
    rw [← rest, lastLine_append before plain, List.append_eq_nil_iff] at none
    refine ⟨[], List.nil_prefix, ?_⟩
    rw [← rest, none.2, List.append_nil, List.append_nil]
  · refine ⟨first, ?_, rfl⟩
    rw [List.count_append] at same
    have plain : '\n' ∉ first := List.count_eq_zero.mp (Nat.add_eq_left.mp same)
    rw [divides.split, List.append_assoc, List.prefix_append_right_inj] at begins
    obtain ⟨rest, whole⟩ := begins
    have taken := congrArg (List.takeWhile (· != '\n')) whole
    rw [List.takeWhile_append_of_pos (notMem_break_iff.mp plain),
      List.takeWhile_append_of_pos (notMem_break_iff.mp divides.plain), divides.closes,
      List.append_nil] at taken
    exact ⟨_, taken⟩

theorem Divides.begins (divides : Divides text head content tail) {first : Text}
    (starts : first <+: content) : head ++ first <+: text := by
  obtain ⟨rest, rfl⟩ := starts
  exact ⟨rest ++ tail, by simp [divides.split]⟩

theorem Divides.endPosition (divides : Divides text head content tail) {first : Text}
    (starts : first <+: content) :
    Text.endPosition (head ++ first) = ⟨head.count '\n', first.units⟩ := by
  have plain : '\n' ∉ first := fun listed => divides.plain (starts.subset listed)
  simp [Text.endPosition, lastLine_append head plain, divides.opens, List.count_eq_zero.mpr plain]

/-- After a line that a line break ends comes another one. -/
theorem Divides.next (divides : Divides text head content ('\n' :: tail)) :
    Divides text (head ++ content ++ ['\n']) (tail.takeWhile (· != '\n'))
      (tail.dropWhile (· != '\n')) := by
  have split : text = head ++ content ++ ['\n'] ++ tail := by simp [divides.split]
  have next := divides_at (head ++ content ++ ['\n']) tail
  rwa [earlierLines_break, lastLine_break, List.nil_append, ← split] at next

theorem Divides.eq_nil_or_cons (divides : Divides text head content tail) :
    tail = [] ∨ ∃ rest, tail = '\n' :: rest := by
  have closes := divides.closes
  cases tail with
  | nil => exact .inl rfl
  | cons char rest =>
      by_cases newline : char = '\n'
      · exact .inr ⟨rest, by rw [newline]⟩
      · simp [newline] at closes

/-- Some beginning of a text has any smaller number of line breaks. -/
theorem exists_begins_count {number : Nat} (inside : number ≤ text.count '\n') :
    ∃ before after, text = before ++ after ∧ before.count '\n' = number := by
  induction text generalizing number with
  | nil => exact ⟨[], [], rfl, (Nat.le_zero.mp inside).symm⟩
  | cons char rest inductionHypothesis =>
      cases number with
      | zero => exact ⟨[], char :: rest, rfl, rfl⟩
      | succ number =>
          rw [List.count_cons] at inside
          by_cases newline : char = '\n'
          · subst newline
            have fewer : number ≤ rest.count '\n' := by simpa using inside
            obtain ⟨before, after, rfl, same⟩ := inductionHypothesis fewer
            exact ⟨'\n' :: before, after, rfl, by simp [same]⟩
          · have also : number + 1 ≤ rest.count '\n' := by simpa [newline] using inside
            obtain ⟨before, after, rfl, same⟩ := inductionHypothesis also
            exact ⟨char :: before, after, rfl, by simp [newline, same]⟩

/-- There are lines up to the number of line breaks. -/
theorem exists_divides {number : Nat} (inside : number ≤ text.count '\n') :
    ∃ head content tail, Divides text head content tail ∧ head.count '\n' = number := by
  obtain ⟨before, after, rfl, same⟩ := exists_begins_count inside
  refine ⟨_, _, _, divides_at before after, ?_⟩
  rw [← same]
  nth_rewrite 2 [← earlierLines_append_lastLine before]
  rw [List.count_append, List.count_eq_zero.mpr (notMem_lastLine before), Nat.add_zero]

end Text

open Scrapscript.Text

/-- The line that a text ends with. -/
def Line.last (text : Text) : Line :=
  ⟨text.earlierLines.bytes, wideChars 0 text.lastLine⟩

/-- What the pass knows after a text: the line that the text ends with, and at its number each line
that a line break has ended. Later lines start later. -/
structure Scan.Covers (scan : Scan) (text : Text) : Prop where
  offset : scan.offset = text.bytes
  line : scan.line = Line.last text
  count : scan.lines.length = text.count '\n'
  complete : ∀ before after, text = before ++ '\n' :: after →
    scan.lines.reverse[before.count '\n']? = some (Line.last before)
  sorted : (scan.line :: scan.lines).Pairwise fun later earlier => earlier.start < later.start

namespace Scan

theorem covers_begin : begin.Covers [] :=
  ⟨rfl, rfl, rfl, by simp, by simp [begin]⟩

variable {scan : Scan} {text : Text}

/-- The line at hand starts where the lines before it stop. -/
theorem Covers.start_eq (covers : scan.Covers text) : scan.start = text.earlierLines.bytes :=
  congrArg Line.start covers.line

theorem Covers.offset_eq (covers : scan.Covers text) :
    scan.offset = scan.start + text.lastLine.bytes := by
  rw [covers.offset, covers.start_eq, ← bytes_append, earlierLines_append_lastLine]

theorem Covers.start_le (covers : scan.Covers text) :
    ∀ line ∈ scan.line :: scan.lines, line.start ≤ scan.offset := by
  have behind := covers.offset_eq
  intro line listed
  rcases List.mem_cons.mp listed with rfl | listed
  · simp only [Scan.line]
    omega
  · have before : line.start < scan.start := List.rel_of_pairwise_cons covers.sorted listed
    omega

/-- A text with one more character, split before its end. -/
theorem eq_of_concat_eq {before after : Text} {char last : Char}
    (split : text ++ [char] = before ++ '\n' :: (after ++ [last])) :
    text = before ++ '\n' :: after := by
  have regrouped : text ++ [char] = (before ++ '\n' :: after) ++ [last] := by simpa using split
  exact (List.append_inj' regrouped rfl).1

/-- A line break ends the line at hand. -/
theorem Covers.step_break (covers : scan.Covers text) :
    (scan.step '\n').Covers (text ++ ['\n']) := by
  have size : Char.utf8Size '\n' = 1 := rfl
  have stepped :
      scan.step '\n' = ⟨scan.line :: scan.lines, scan.offset + 1, [], scan.offset + 1⟩ := by
    simp [step, size]
  rw [stepped]
  refine ⟨?_, ?_, ?_, ?_, ?_⟩
  · simp [covers.offset, bytes, size]
  · simp [Scan.line, Line.last, lastLine_break, earlierLines_break, covers.offset, bytes, size,
      wideChars]
  · simp [covers.count]
  · intro before after split
    rcases List.eq_nil_or_concat' after with rfl | ⟨after, last, rfl⟩
    · obtain rfl := List.append_cancel_right split
      rw [List.reverse_cons, List.getElem?_append_right (by simp [covers.count])]
      simp [covers.count, covers.line]
    · have found := covers.complete before after (eq_of_concat_eq split)
      rw [List.reverse_cons, List.getElem?_append_left (List.getElem?_eq_some_iff.mp found).1]
      exact found
  · refine List.pairwise_cons.mpr ⟨fun line listed => ?_, covers.sorted⟩
    exact Nat.lt_succ_of_le (covers.start_le line listed)

/-- Any other character goes on with the line at hand. -/
theorem Covers.step_char (covers : scan.Covers text) {char : Char} (visible : char ≠ '\n') :
    (scan.step char).Covers (text ++ [char]) := by
  have plain : '\n' ∉ [char] := by simpa using visible.symm
  have column : scan.offset - scan.start = text.lastLine.bytes := by
    rw [covers.offset_eq, Nat.add_sub_cancel_left]
  have lines : (scan.step char).lines = scan.lines := by
    simp only [step, visible, if_false]
    split <;> rfl
  have start : (scan.step char).start = scan.start := by
    simp only [step, visible, if_false]
    split <;> rfl
  have wide : (scan.step char).wide.reverse =
      scan.wide.reverse ++ wideChars text.lastLine.bytes [char] := by
    simp only [step, visible, if_false, column, wideChars]
    split <;> simp
  have offset : (scan.step char).offset = scan.offset + char.utf8Size := by
    simp only [step, visible, if_false]
    split <;> rfl
  refine ⟨?_, ?_, ?_, ?_, ?_⟩
  · simp [offset, covers.offset, bytes]
  · have before := covers.line
    simp only [Scan.line, Line.last, Line.mk.injEq] at before
    simp only [Scan.line, Line.last, start, wide, before.1, before.2, lastLine_append text plain,
      earlierLines_append text plain, wideChars_append, Nat.zero_add]
  · rw [lines, covers.count, List.count_append, List.count_eq_zero.mpr plain, Nat.add_zero]
  · intro before after split
    rcases List.eq_nil_or_concat' after with rfl | ⟨after, last, rfl⟩
    · exact absurd (List.append_inj' split rfl).2 (by simpa using visible)
    · rw [lines]
      exact covers.complete before after (eq_of_concat_eq split)
  · have sorted := covers.sorted
    rw [List.pairwise_cons] at sorted ⊢
    rw [lines]
    exact ⟨fun line listed => by simpa [Scan.line, start] using sorted.1 line listed, sorted.2⟩

theorem Covers.step (covers : scan.Covers text) (char : Char) :
    (scan.step char).Covers (text ++ [char]) := by
  by_cases newline : char = '\n'
  · subst newline
    exact covers.step_break
  · exact covers.step_char newline

/-- The pass over a text knows the lines of the text. -/
theorem covers_read (text : Text) : (begin.read text).Covers text := by
  induction text using List.reverseRecOn with
  | nil => exact covers_begin
  | append_singleton text char inductionHypothesis =>
      rw [read, List.foldl_append]
      exact inductionHypothesis.step char

end Scan

namespace LineIndex

variable {text head content tail : Text}

@[simp]
theorem length_ofText (text : Text) : (ofText text).length = text.bytes :=
  (Scan.covers_read text).offset

/-- There is one line more than there are line breaks. -/
theorem length_lines (text : Text) : (ofText text).lines.length = text.count '\n' + 1 := by
  simp [ofText, (Scan.covers_read text).count]

theorem lineCount_ofText (text : Text) :
    (ofText text).lineCount = (text.count '\n' + 1) % UInt32.size := by
  rw [lineCount, length_lines]

/-- The count of the lines is right as long as it fits into 32 bits. -/
theorem lineCount_eq_iff (text : Text) :
    (ofText text).lineCount = text.count '\n' + 1 ↔ text.count '\n' + 1 < UInt32.size := by
  rw [lineCount_ofText, Nat.mod_eq_iff_lt (by decide)]

theorem sorted_ofText (text : Text) :
    (ofText text).lines.Pairwise fun earlier later => earlier.start < later.start := by
  rw [ofText, List.pairwise_reverse]
  exact (Scan.covers_read text).sorted

/-- The index holds each line at its number. -/
theorem getElem?_lines (divides : Divides text head content tail) :
    (ofText text).lines[head.count '\n']? = some ⟨head.bytes, wideChars 0 content⟩ := by
  have covers := Scan.covers_read text
  have count : (head ++ content).count '\n' = head.count '\n' := by
    rw [List.count_append, List.count_eq_zero.mpr divides.plain, Nat.add_zero]
  have last : Line.last (head ++ content) = ⟨head.bytes, wideChars 0 content⟩ := by
    have opens : head.earlierLines = head := by
      have whole := earlierLines_append_lastLine head
      rwa [divides.opens, List.append_nil] at whole
    simp [Line.last, lastLine_append head divides.plain, earlierLines_append head divides.plain,
      divides.opens, opens]
  rw [← last, ← count]
  simp only [ofText, List.reverse_cons]
  rcases divides.eq_nil_or_cons with rfl | ⟨rest, rfl⟩
  · have whole : text = head ++ content := by simpa using divides.split
    rw [← whole, ← covers.count, ← List.length_reverse, List.getElem?_concat_length, covers.line]
  · have found := covers.complete _ _ divides.split
    rw [List.getElem?_append_left (List.getElem?_eq_some_iff.mp found).1]
    exact found

theorem line_ofText (divides : Divides text head content tail) :
    (ofText text).line (head.count '\n') = ⟨head.bytes, wideChars 0 content⟩ := by
  rw [line, List.getD_eq_getElem?_getD, getElem?_lines divides, Option.getD_some]

/-- A line is the last one, or the next one starts after the line break. -/
theorem getElem?_next (divides : Divides text head content tail) :
    (tail = [] ∧ (ofText text).lines[head.count '\n' + 1]? = none) ∨
      ∃ next, (ofText text).lines[head.count '\n' + 1]? = some next ∧
        next.start = head.bytes + content.bytes + 1 := by
  have flat := List.count_eq_zero.mpr divides.plain
  rcases divides.eq_nil_or_cons with rfl | ⟨rest, rfl⟩
  · refine .inl ⟨rfl, List.getElem?_eq_none_iff.mpr ?_⟩
    have breaks : text.count '\n' = head.count '\n' := by simp [divides.split, flat]
    exact Nat.le_of_eq (breaks ▸ length_lines text)
  · have number : (head ++ content ++ ['\n']).count '\n' = head.count '\n' + 1 := by simp [flat]
    have next := getElem?_lines divides.next
    rw [number] at next
    refine .inr ⟨_, next, ?_⟩
    simp only [bytes_append]
    rfl

/-- A line stops where its content does. -/
theorem lineStop_ofText (divides : Divides text head content tail) :
    (ofText text).lineStop (head.count '\n') = head.bytes + content.bytes := by
  rcases getElem?_next divides with ⟨rfl, none⟩ | ⟨next, found, start⟩
  · rw [lineStop, none, length_ofText, divides.split, List.append_nil, bytes_append]
  · simp [lineStop, found, start]

/-- The lines that start no later than an offset are those up to the line it lies on. -/
theorem length_takeWhile_start {lines : List Line} {line : Line} {number offset : Nat}
    (sorted : lines.Pairwise fun earlier later => earlier.start < later.start)
    (found : lines[number]? = some line) (reached : line.start ≤ offset)
    (ahead : ∀ next, lines[number + 1]? = some next → offset < next.start) :
    (lines.takeWhile (·.start ≤ offset)).length = number + 1 := by
  induction lines generalizing number with
  | nil => simp at found
  | cons first rest inductionHypothesis =>
      obtain ⟨before, sorted⟩ := List.pairwise_cons.mp sorted
      cases number with
      | zero =>
          obtain rfl : first = line := by simpa using found
          cases rest with
          | nil => simp [reached]
          | cons next rest =>
              have later := ahead next rfl
              simp [reached, Nat.not_le.mpr later]
      | succ number =>
          have others := inductionHypothesis sorted found ahead
          have listed : line ∈ rest := List.mem_of_getElem? found
          have earlier : first.start ≤ offset :=
            Nat.le_trans (Nat.le_of_lt (before line listed)) reached
          simp [earlier, others]

/-- Line and byte column of a place on a line. -/
theorem lineColumn_ofText {first rest : Text} (divides : Divides text head (first ++ rest) tail) :
    (ofText text).lineColumn (head ++ first).bytes = (head.count '\n', first.bytes) := by
  have found := getElem?_lines divides
  have inside : min (head ++ first).bytes text.bytes = head.bytes + first.bytes := by
    rw [divides.split]
    simp only [bytes_append]
    omega
  have ahead : ∀ next, (ofText text).lines[head.count '\n' + 1]? = some next →
      head.bytes + first.bytes < next.start := by
    intro next listed
    rcases getElem?_next divides with ⟨-, none⟩ | ⟨other, found, start⟩
    · simp [none] at listed
    · obtain rfl : other = next := by simpa [found] using listed
      rw [start, bytes_append]
      omega
  have number := length_takeWhile_start (sorted_ofText text) found (Nat.le_add_right _ _) ahead
  simp only [lineColumn, length_ofText, inside, number, Nat.add_sub_cancel, line_ofText divides,
    Nat.add_sub_cancel_left]

/-- The position of a place is where its beginning of the text ends. -/
theorem position_bytes {before : Text} (begins : before <+: text) :
    (ofText text).position before.bytes = before.endPosition := by
  obtain ⟨after, rfl⟩ := begins
  have divides := divides_at before after
  have located := lineColumn_ofText divides
  have placed := divides.endPosition (List.prefix_append _ _)
  rw [earlierLines_append_lastLine] at located placed
  have column := Line.unitColumn_bytes (congrArg Line.wide (line_ofText divides))
  rw [position, located, placed]
  simp only [column]

end LineIndex

end Scrapscript
