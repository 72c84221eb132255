import Scrapscript.Text.LineIndex
import Scrapscript.Proofs.Text.Slice

/-!
Columns of one line. The wide characters of a line are found in its text, and with them byte columns
and UTF-16 columns are turned into each other without reading the text again.
-/

namespace Scrapscript

namespace Text

theorem unitsOf_eq (char : Char) : unitsOf char = if char.utf8Size = 4 then 2 else 1 := by
  have size : char.utf8Size = 4 ↔ ¬ char.toNat < 0x10000 := by
    have below : char.val ≤ 0xFFFF ↔ char.toNat < 0x10000 := by
      rw [UInt32.le_iff_toNat_le]
      exact Nat.lt_succ_iff.symm
    unfold Char.utf8Size
    grind
  unfold unitsOf
  grind

theorem unitsOf_pos (char : Char) : 0 < unitsOf char := by
  rw [unitsOf_eq]
  split <;> omega

theorem unitsOf_le_utf8Size (char : Char) : unitsOf char ≤ char.utf8Size := by
  have size : 0 < char.utf8Size := char.utf8Size_pos
  rw [unitsOf_eq]
  split <;> omega

@[simp]
theorem units_append (first second : Text) :
    units (first ++ second) = units first + units second := by
  induction first with
  | nil => simp [units]
  | cons char rest inductionHypothesis =>
      simp only [List.cons_append, units, inductionHypothesis]
      omega

theorem units_le_bytes (text : Text) : text.units ≤ text.bytes := by
  induction text with
  | nil => exact Nat.le_refl 0
  | cons char rest inductionHypothesis =>
      exact Nat.add_le_add (unitsOf_le_utf8Size char) inductionHypothesis

/-- The wide characters of a text that starts at a byte column. -/
def wideChars (column : Nat) : Text → List WideChar
  | [] => []
  | char :: rest =>
      let next := column + char.utf8Size
      if 1 < char.utf8Size then ⟨column, next⟩ :: wideChars next rest else wideChars next rest

theorem wideChars_append (column : Nat) (first second : Text) :
    wideChars column (first ++ second) =
      wideChars column first ++ wideChars (column + first.bytes) second := by
  induction first generalizing column with
  | nil => rfl
  | cons char rest inductionHypothesis =>
      simp only [List.cons_append, wideChars, bytes, inductionHypothesis, Nat.add_assoc]
      split <;> rfl

/-- A wide character stands somewhere in the text, those before it in what comes before. -/
theorem wideChars_eq_append_cons {column : Nat} {text : Text} {before after : List WideChar}
    {wide : WideChar} (found : wideChars column text = before ++ wide :: after) :
    ∃ first char second, text = first ++ char :: second ∧ 1 < char.utf8Size ∧
      before = wideChars column first ∧ wide.start = column + first.bytes ∧
      wide.stop = wide.start + char.utf8Size ∧ after = wideChars wide.stop second := by
  induction text generalizing column before with
  | nil => simp [wideChars] at found
  | cons char rest inductionHypothesis =>
      simp only [wideChars] at found
      split at found
      · rename_i big
        cases before with
        | nil =>
            obtain ⟨rfl, rfl⟩ := List.cons.inj found
            exact ⟨[], char, rest, rfl, big, rfl, rfl, rfl, rfl⟩
        | cons head before =>
            obtain ⟨rfl, others⟩ := List.cons.inj found
            obtain ⟨first, char', second, rfl, big', rfl, start, stop, rfl⟩ :=
              inductionHypothesis others
            refine ⟨char :: first, char', second, rfl, big', ?_, ?_, stop, rfl⟩
            · simp [wideChars, big]
            · simp [start, bytes, Nat.add_assoc]
      · rename_i small
        obtain ⟨first, char', second, rfl, big', rfl, start, stop, rfl⟩ := inductionHypothesis found
        refine ⟨char :: first, char', second, rfl, big', ?_, ?_, stop, rfl⟩
        · simp [wideChars, small]
        · simp [start, bytes, Nat.add_assoc]

/-- Without wide characters a text takes as many bytes and units as it has characters. -/
theorem bytes_of_narrow {column : Nat} {text : Text} (narrow : wideChars column text = []) :
    text.bytes = text.length ∧ text.units = text.length := by
  induction text generalizing column with
  | nil => exact ⟨rfl, rfl⟩
  | cons char rest inductionHypothesis =>
      simp only [wideChars] at narrow
      split at narrow
      · contradiction
      · rename_i small
        have one : char.utf8Size = 1 := by
          have positive := char.utf8Size_pos
          omega
        obtain ⟨byteCount, unitCount⟩ := inductionHypothesis narrow
        simp [bytes, units, unitsOf_eq, one, byteCount, unitCount, Nat.add_comm]

/-- Before the first wide character all others are narrow. -/
theorem wideChars_eq_cons {column : Nat} {text : Text} {after : List WideChar} {wide : WideChar}
    (found : wideChars column text = wide :: after) :
    ∃ narrow char rest, text = narrow ++ char :: rest ∧ wideChars column narrow = [] ∧
      narrow.bytes = narrow.units ∧ wide.start = column + narrow.bytes ∧
      wide.stop = wide.start + char.utf8Size ∧ after = wideChars wide.stop rest := by
  rw [← List.nil_append (wide :: after)] at found
  obtain ⟨narrow, char, rest, split, -, plain, start, stop, ahead⟩ := wideChars_eq_append_cons found
  obtain ⟨byteCount, unitCount⟩ := bytes_of_narrow plain.symm
  exact ⟨narrow, char, rest, split, plain.symm, byteCount.trans unitCount.symm, start, stop, ahead⟩

/-- A wide character measures what the character does. -/
theorem measure_wide {wide : WideChar} {char : Char}
    (stop : wide.stop = wide.start + char.utf8Size) :
    wide.width = char.utf8Size ∧ wide.units = unitsOf char := by
  have width : wide.width = char.utf8Size := by simp [WideChar.width, stop]
  exact ⟨width, by rw [WideChar.units, width, unitsOf_eq]⟩

/-- Past a whole text, its units have been counted instead of its bytes. -/
theorem foldl_correct_passed {column : Nat} (start : Nat) (text : Text)
    (passed : start + text.bytes ≤ column) (counted : Nat) :
    (wideChars start text).foldl (WideChar.correct column) (counted + text.bytes) =
      counted + text.units := by
  induction text generalizing start counted with
  | nil => rfl
  | cons char rest inductionHypothesis =>
      simp only [bytes, units, wideChars] at passed ⊢
      have others := inductionHypothesis (start + char.utf8Size) (by omega) (counted + unitsOf char)
      rw [← Nat.add_assoc counted (unitsOf char), ← others]
      split
      · have stop : WideChar.stop ⟨start, start + char.utf8Size⟩ = start + char.utf8Size := rfl
        obtain ⟨width, unitCount⟩ := measure_wide stop
        have reached : start + char.utf8Size ≤ column := by omega
        rw [List.foldl_cons, WideChar.correct, if_pos reached, width, unitCount]
        congr 1
        omega
      · have one : char.utf8Size = 1 := by
          have positive := char.utf8Size_pos
          omega
        have single : unitsOf char = 1 := by simp [unitsOf_eq, one]
        rw [one, single, Nat.add_assoc]

/-- What lies past the column is left alone. -/
theorem foldl_correct_ahead {column : Nat} {wides : List WideChar}
    (ahead : ∀ wide ∈ wides, column < wide.stop) (counted : Nat) :
    wides.foldl (WideChar.correct column) counted = counted := by
  induction wides with
  | nil => rfl
  | cons wide wides inductionHypothesis =>
      have first : ¬ wide.stop ≤ column := Nat.not_le.mpr (ahead wide (.head _))
      rw [List.foldl_cons, WideChar.correct, if_neg first]
      exact inductionHypothesis fun other listed => ahead other (.tail _ listed)

/-- The longest beginning of a text that takes at most the given number of UTF-16 units. -/
structure IsFloor (text : Text) (limit : Nat) (first : Text) : Prop where
  begins : first <+: text
  fits : first.units ≤ limit
  longest : ∀ other : Text, other <+: text → other.units ≤ limit → other <+: first

/-- A beginning after which the next character does not fit any more. -/
theorem IsFloor.of_next {first second : Text} {limit : Nat} (fits : first.units ≤ limit)
    (exceeds : ∀ char ∈ second.head?, limit < first.units + unitsOf char) :
    IsFloor (first ++ second) limit first := by
  refine ⟨List.prefix_append _ _, fits, ?_⟩
  intro other begins otherFits
  rcases List.prefix_or_prefix_of_prefix begins (List.prefix_append first second) with
    shorter | ⟨more, rfl⟩
  · exact shorter
  · rw [List.prefix_append_right_inj] at begins
    cases more with
    | nil => simp
    | cons char more =>
        obtain ⟨rest, rfl⟩ := begins
        have next := exceeds char rfl
        rw [units_append, units] at otherFits
        omega

end Text

/-- The walk that has measured a text. -/
def Walk.past (text : Text) : Walk :=
  ⟨text.units, text.bytes, text.bytes⟩

namespace Walk

open Scrapscript.Text

/-- From the end of a text the walk goes over narrow characters to the next wide one. It ends there
if the UTF-16 column lies among the narrow characters or inside the wide one. -/
theorem step_past {first narrow : Text} {char : Char} {wide : WideChar} (character : Nat)
    (plain : narrow.bytes = narrow.units) (start : wide.start = first.bytes + narrow.bytes)
    (stop : wide.stop = wide.start + char.utf8Size) :
    step character (past first) wide =
      if character ≤ (first ++ narrow).units then
        .error (first.bytes + (character - first.units))
      else if character < (first ++ narrow ++ [char]).units then .error (first ++ narrow).bytes
      else .ok (past (first ++ narrow ++ [char])) := by
  obtain ⟨width, unitCount⟩ := measure_wide stop
  simp only [step, past, width, unitCount, units_append, bytes_append, Text.units, Text.bytes, plain,
    stop, start, Nat.add_zero, Nat.add_sub_cancel_left, Nat.add_assoc]

/-- A walk over some of the wide characters that are left has measured the text up to the last of
them. -/
theorem past_of_walked {character : Nat} {first second : Text} {before after : List WideChar}
    {walk : Walk} (found : wideChars first.bytes second = before ++ after)
    (fits : first.units ≤ character)
    (walked : before.foldlM (step character) (past first) = .ok walk) :
    ∃ more rest, second = more ++ rest ∧ walk = past (first ++ more) ∧
      (first ++ more).units ≤ character ∧ after = wideChars (first ++ more).bytes rest := by
  induction before generalizing first second with
  | nil => exact ⟨[], second, rfl, by simpa using (Except.ok.inj walked).symm, by simpa using fits,
      by simpa using found.symm⟩
  | cons next before inductionHypothesis =>
      obtain ⟨narrow, char, rest, rfl, -, plain, start, stop, ahead⟩ := wideChars_eq_cons found
      rw [List.foldlM_cons, step_past character plain start stop] at walked
      split at walked
      · contradiction
      · split at walked
        · contradiction
        · rename_i passed
          have reached : next.stop = (first ++ narrow ++ [char]).bytes := by
            simp [stop, start, Text.bytes, Nat.add_assoc]
          rw [reached] at ahead
          obtain ⟨more, rest, rfl, rfl, fits, rfl⟩ :=
            inductionHypothesis ahead.symm (Nat.not_lt.mp passed) walked
          refine ⟨narrow ++ char :: more, rest, by simp, by simp, ?_, by simp⟩
          simpa using fits

/-- A walk that ends early ends at one of the wide characters. -/
theorem exists_of_ended {character column : Nat} {wides : List WideChar} {walk : Walk}
    (ended : wides.foldlM (step character) walk = .error column) :
    ∃ before next after last, wides = before ++ next :: after ∧
      before.foldlM (step character) walk = .ok last ∧
      step character last next = .error column := by
  induction wides generalizing walk with
  | nil => contradiction
  | cons next wides inductionHypothesis =>
      rw [List.foldlM_cons] at ended
      cases stepped : step character walk next with
      | error reached =>
          rw [stepped] at ended
          exact ⟨[], next, wides, walk, rfl, rfl, stepped.trans ended⟩
      | ok last =>
          rw [stepped] at ended
          obtain ⟨before, wide, after, farther, rfl, walked, stopped⟩ := inductionHypothesis ended
          refine ⟨next :: before, wide, after, farther, rfl, ?_, stopped⟩
          rw [List.foldlM_cons, stepped]
          exact walked

end Walk

namespace Line

open Scrapscript.Text

variable {line : Line} {content : Text}

/-- The UTF-16 column of a character boundary counts the units before it. -/
theorem unitColumn_bytes {first second : Text} (wide : line.wide = wideChars 0 (first ++ second)) :
    line.unitColumn first.bytes = first.units := by
  have passed := foldl_correct_passed 0 first (Nat.le_of_eq (Nat.zero_add first.bytes)) 0
  have ahead : ∀ wide ∈ wideChars (0 + first.bytes) second, first.bytes < wide.stop := by
    intro wide listed
    obtain ⟨before, after, found⟩ := List.append_of_mem listed
    obtain ⟨_, char, _, -, big, -, start, stop, -⟩ := wideChars_eq_append_cons found
    omega
  rw [Nat.zero_add, Nat.zero_add] at passed
  rw [unitColumn, wide, wideChars_append, List.foldl_append, passed, foldl_correct_ahead ahead]

/-- No correction of a column takes away more than has been counted, at any byte column. -/
theorem correct_no_underflow (wide : line.wide = wideChars 0 content) {column : Nat}
    {before after : List WideChar} {next : WideChar} (found : line.wide = before ++ next :: after)
    (passed : next.stop ≤ column) :
    next.start ≤ next.stop ∧ next.width ≤ before.foldl (WideChar.correct column) column := by
  rw [wide] at found
  obtain ⟨first, char, second, -, -, rfl, start, stop, -⟩ := wideChars_eq_append_cons found
  obtain ⟨width, -⟩ := measure_wide stop
  have within : 0 + first.bytes ≤ column := by omega
  have counted := foldl_correct_passed 0 first within (column - first.bytes)
  rw [Nat.sub_add_cancel (by omega)] at counted
  constructor
  · omega
  · rw [counted, width]
    omega

/-- A walk over some of a line's wide characters has measured the line up to the last of them. -/
theorem past_of_walked (wide : line.wide = wideChars 0 content) {character : Nat}
    {before after : List WideChar} {walk : Walk} (found : line.wide = before ++ after)
    (walked : before.foldlM (Walk.step character) Walk.start = .ok walk) :
    ∃ first second, content = first ++ second ∧ walk = Walk.past first ∧
      first.units ≤ character ∧ after = wideChars first.bytes second := by
  have all : wideChars (bytes []) content = before ++ after := wide.symm.trans found
  obtain ⟨first, second, split, past, fits, ahead⟩ :=
    Walk.past_of_walked all (Nat.zero_le _) walked
  exact ⟨first, second, split, past, fits, ahead⟩

/-- Wherever a walk has come to, it has not passed the column, and the next wide character lies
ahead. What it counts stays within the line. -/
theorem walk_no_underflow (wide : line.wide = wideChars 0 content) {character : Nat}
    {before after : List WideChar} {walk : Walk} (found : line.wide = before ++ after)
    (walked : before.foldlM (Walk.step character) Walk.start = .ok walk) :
    walk.units ≤ character ∧ walk.bytes ≤ content.bytes ∧
      ∀ next ∈ after.head?, walk.cursor ≤ next.start ∧ next.start ≤ next.stop ∧
        walk.units + (next.start - walk.cursor) + next.units ≤ content.bytes ∧
        walk.bytes + (next.start - walk.cursor) + next.width ≤ content.bytes := by
  obtain ⟨first, second, rfl, rfl, fits, rfl⟩ := past_of_walked wide found walked
  refine ⟨fits, by simp [Walk.past], ?_⟩
  intro next ahead
  obtain ⟨others, ahead⟩ := List.head?_eq_some_iff.mp ahead
  obtain ⟨narrow, char, rest, rfl, -, -, start, stop, -⟩ := wideChars_eq_cons ahead
  obtain ⟨width, unitCount⟩ := measure_wide stop
  have small := units_le_bytes first
  have single := unitsOf_le_utf8Size char
  simp only [Walk.past, width, unitCount, bytes_append, bytes]
  omega

/-- Among narrow characters a UTF-16 column is found by counting. -/
theorem isFloor_narrow {first narrow : Text} {start character : Nat} (rest : Text)
    (plain : wideChars start narrow = []) (fits : first.units ≤ character)
    (within : character ≤ (first ++ narrow).units ∨ rest = []) :
    ∃ floor, IsFloor (first ++ narrow ++ rest) character floor ∧
      floor.bytes = min (first.bytes + (character - first.units)) (first ++ narrow).bytes := by
  obtain ⟨byteCount, unitCount⟩ := bytes_of_narrow plain
  have split : narrow.take (character - first.units) ++ narrow.drop (character - first.units) =
      narrow := List.take_append_drop _ _
  have part : wideChars start (narrow.take (character - first.units)) = [] := by
    rw [← split, wideChars_append] at plain
    exact (List.append_eq_nil_iff.mp plain).1
  obtain ⟨partBytes, partUnits⟩ := bytes_of_narrow part
  rw [List.length_take] at partBytes partUnits
  rw [units_append, unitCount] at within
  refine ⟨first ++ narrow.take (character - first.units), ?_, ?_⟩
  · have whole : first ++ narrow ++ rest = first ++ narrow.take (character - first.units) ++
        (narrow.drop (character - first.units) ++ rest) := by
      rw [List.append_assoc first (narrow.take _), ← List.append_assoc (narrow.take _), split,
        List.append_assoc]
    rw [whole]
    apply IsFloor.of_next
    · rw [units_append, partUnits]
      omega
    · intro char next
      have positive := unitsOf_pos char
      rw [units_append, partUnits]
      rcases Nat.le_total (character - first.units) narrow.length with inside | outside
      · omega
      · -- Past the narrow characters the text is at its end.
        rw [List.drop_eq_nil_of_le outside] at next
        rcases within with within | rfl
        · omega
        · simp at next
  · simp only [bytes_append, partBytes, byteCount]
    omega

/-- The byte column of a UTF-16 column, as far as the line goes, is where the longest beginning of
the line stops that takes no more units. -/
theorem byteColumn_floor (wide : line.wide = wideChars 0 content) (character : Nat) :
    ∃ first, IsFloor content character first ∧
      min (line.byteColumn character) content.bytes = first.bytes := by
  rw [byteColumn]
  cases walked : line.wide.foldlM (Walk.step character) Walk.start with
  | ok walk =>
      obtain ⟨first, narrow, rfl, rfl, fits, plain⟩ :=
        past_of_walked wide (List.append_nil _).symm walked
      obtain ⟨floor, isFloor, size⟩ := isFloor_narrow [] plain.symm fits (.inr rfl)
      exact ⟨floor, by simpa using isFloor, size.symm⟩
  | error column =>
      obtain ⟨before, next, after, last, found, earlier, stopped⟩ := Walk.exists_of_ended walked
      obtain ⟨first, second, rfl, rfl, fits, ahead⟩ := past_of_walked wide found earlier
      obtain ⟨narrow, char, rest, rfl, narrows, plain, start, stop, -⟩ :=
        wideChars_eq_cons ahead.symm
      rw [← List.append_assoc]
      rw [Walk.step_past character plain start stop] at stopped
      split at stopped
      · rename_i within
        obtain ⟨floor, isFloor, size⟩ := isFloor_narrow (char :: rest) narrows fits (.inl within)
        refine ⟨floor, isFloor, ?_⟩
        rw [← Except.error.inj stopped, size]
        rw [units_append] at within
        simp only [bytes_append]
        omega
      · rename_i passed
        split at stopped
        · rename_i inside
          refine ⟨first ++ narrow, ?_, ?_⟩
          · apply IsFloor.of_next (Nat.le_of_not_le passed)
            rintro _ ⟨⟩
            simpa [units, Nat.add_assoc] using inside
          · rw [← Except.error.inj stopped]
            simp only [bytes_append]
            omega
        · contradiction

end Line

end Scrapscript
