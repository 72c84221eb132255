import Scrapscript.Highlight
import Scrapscript.Proofs.Document
import Scrapscript.Proofs.Text.Pieces

/-!
Highlights of a document. They stand for the lines of the tokens that have a class, each where the
text has that line, and they follow one another without overlap.
-/

namespace Scrapscript

open Scrapscript.Text

theorem Position.le_iff {left right : Position} : left ≤ right ↔
    left.line < right.line ∨ left.line = right.line ∧ left.character ≤ right.character := by
  show ¬ (right.line < left.line ∨ right.line = left.line ∧ right.character < left.character) ↔ _
  omega

theorem Position.le_trans {first second third : Position} (left : first ≤ second)
    (right : second ≤ third) : first ≤ third := by
  rw [le_iff] at left right ⊢
  omega

theorem Text.endPosition_le {before later : Text} (ordered : before <+: later) :
    before.endPosition ≤ later.endPosition := by
  apply LineIndex.endPosition_le_of_bytes_le ordered List.prefix_rfl
  obtain ⟨more, rfl⟩ := ordered
  simp

/-- What is left of a token's lines without their carriage returns, empty lines left out. -/
def Leaf.strokes (leaf : Leaf) : List Text :=
  ((leaf.text.splitOn '\n').map withoutReturn).filter (· ≠ [])

/-- The strokes of the tokens that have a class, each with its token. -/
def Node.strokes (node : Node) : List (Leaf × Text) :=
  (node.leaves.filter fun leaf => (Highlight.classify? leaf).isSome).flatMap fun leaf =>
    leaf.strokes.map (leaf, ·)

namespace Highlight

/-- A highlight spans a piece of its line: the UTF-16 units before the piece are its column, and
those of the piece its length. -/
def Spells (text : Text) (highlight : Highlight) (piece : Text) : Prop :=
  ∃ before after, (text.splitOn '\n')[highlight.line]? = some (before ++ piece ++ after) ∧
    before.units = highlight.column ∧ piece.units = highlight.length

/-- A highlight is of the class of a token. -/
def HasClassOf (highlight : Highlight) (leaf : Leaf) : Prop :=
  classify? leaf = some (highlight.kind, highlight.isDeclaration)

def start (highlight : Highlight) : Position :=
  ⟨highlight.line, highlight.column⟩

def stop (highlight : Highlight) : Position :=
  ⟨highlight.line, highlight.column + highlight.length⟩

/-- A highlight stands for a piece of a text after what comes before it. -/
structure StandsFor (text : Text) (highlight : Highlight) (before piece : Text) : Prop where
  begins : before ++ piece <+: text
  some : piece ≠ []
  plain : '\n' ∉ piece
  start : highlight.start = before.endPosition
  length : highlight.length = piece.units

namespace StandsFor

variable {text before piece : Text} {highlight : Highlight}

theorem stop (stands : highlight.StandsFor text before piece) :
    highlight.stop = endPosition (before ++ piece) := by
  have start := stands.start
  simp only [Highlight.start, endPosition, Position.mk.injEq] at start
  simp only [Highlight.stop, endPosition, start, stands.length, lastLine_append before stands.plain,
    units_append, List.count_append, List.count_eq_zero.mpr stands.plain, Nat.add_zero]

theorem spells (stands : highlight.StandsFor text before piece) : highlight.Spells text piece := by
  obtain ⟨after, split⟩ := stands.begins
  have start := stands.start
  simp only [Highlight.start, endPosition, Position.mk.injEq] at start
  -- The line that the piece begins on is also the one that it ends on.
  have divides := divides_at (before ++ piece) after
  have line := divides.getElem?_splitOn
  rw [split, lastLine_append before stands.plain, earlierLines_append before stands.plain] at line
  have number : before.earlierLines.count '\n' = highlight.line := by
    rw [start.1]
    nth_rewrite 2 [← earlierLines_append_lastLine before]
    rw [List.count_append, List.count_eq_zero.mpr (notMem_lastLine before), Nat.add_zero]
  rw [number] at line
  exact ⟨before.lastLine, _, line, start.2.symm, stands.length.symm⟩

theorem length_pos (stands : highlight.StandsFor text before piece) : 0 < highlight.length := by
  rw [stands.length]
  cases piece with
  | nil => exact absurd rfl stands.some
  | cons char rest =>
      have positive := unitsOf_pos char
      simp only [units]
      omega

end StandsFor

/-- Highlights that stand for strokes between two places of a text, one after another. -/
inductive Run (text : Text) : Text → Text → List Highlight → List (Leaf × Text) → Prop where
  | nil {front back : Text} (ordered : front <+: back) : Run text front back [] []
  | cons {front before piece back : Text} {highlight : Highlight} {leaf : Leaf}
      {highlights : List Highlight} {strokes : List (Leaf × Text)} (ordered : front <+: before)
      (stands : highlight.StandsFor text before piece) (classified : highlight.HasClassOf leaf)
      (rest : Run text (before ++ piece) back highlights strokes) :
      Run text front back (highlight :: highlights) ((leaf, piece) :: strokes)

namespace Run

variable {text front middle back : Text} {highlights : List Highlight}
  {strokes : List (Leaf × Text)}

theorem of_later (ordered : front <+: middle) (run : Run text middle back highlights strokes) :
    Run text front back highlights strokes := by
  cases run with
  | nil also => exact .nil (ordered.trans also)
  | cons also stands classified rest => exact .cons (ordered.trans also) stands classified rest

theorem append {others : List Highlight} {further : List (Leaf × Text)}
    (run : Run text front middle highlights strokes) (rest : Run text middle back others further) :
    Run text front back (highlights ++ others) (strokes ++ further) := by
  induction run with
  | nil ordered => exact of_later ordered rest
  | cons ordered stands classified _ inductionHypothesis =>
      exact .cons ordered stands classified (inductionHypothesis rest)

theorem spells (run : Run text front back highlights strokes) :
    List.Forall₂ (fun highlight stroke =>
      highlight.HasClassOf stroke.1 ∧ highlight.Spells text stroke.2) highlights strokes := by
  induction run with
  | nil => exact .nil
  | cons _ stands classified _ inductionHypothesis =>
      exact .cons ⟨classified, stands.spells⟩ inductionHypothesis

theorem exists_standsFor (run : Run text front back highlights strokes) :
    ∀ highlight ∈ highlights, ∃ before piece, highlight.StandsFor text before piece := by
  induction run with
  | nil => simp
  | cons _ stands _ _ inductionHypothesis =>
      exact List.forall_mem_cons.mpr ⟨⟨_, _, stands⟩, inductionHypothesis⟩

theorem start_ge (run : Run text front back highlights strokes) :
    ∀ highlight ∈ highlights, front.endPosition ≤ highlight.start := by
  induction run with
  | nil => simp
  | cons ordered stands _ _ inductionHypothesis =>
      intro highlight listed
      rcases List.mem_cons.mp listed with rfl | listed
      · rw [stands.start]
        exact endPosition_le ordered
      · apply Position.le_trans _ (inductionHypothesis highlight listed)
        exact endPosition_le (ordered.trans (List.prefix_append _ _))

theorem ordered (run : Run text front back highlights strokes) :
    highlights.Pairwise fun earlier later => earlier.stop ≤ later.start := by
  induction run with
  | nil => exact .nil
  | cons _ stands _ rest inductionHypothesis =>
      refine .cons (fun later listed => ?_) inductionHypothesis
      rw [stands.stop]
      exact rest.start_ge later listed

end Run

section

variable {text front : Text} {leaf : Leaf} {kind : HighlightKind} {isDeclaration : Bool}

theorem ofLines_cons (index : LineIndex) (offset : Nat) (line : Text) (more : List Text) :
    ofLines index kind isDeclaration offset (line :: more) =
      ofLines index kind isDeclaration offset [line] ++
        ofLines index kind isDeclaration (offset + line.bytes + 1) more := by
  simp only [ofLines]
  split
  · rfl
  · rfl

variable (classified : classify? leaf = some (kind, isDeclaration))

include classified

/-- One line of a token. -/
theorem run_line {line : Text} (begins : front ++ line <+: text) (plain : '\n' ∉ line) :
    Run text front (front ++ line)
      (ofLines (.ofText text) kind isDeclaration front.bytes [line])
      ((([line].map withoutReturn).filter (· ≠ [])).map (leaf, ·)) := by
  have kept := withoutReturn_begins line
  simp only [ofLines, withoutLast_return, List.map_cons, List.map_nil, List.isEmpty_iff]
  by_cases empty : line.withoutReturn = []
  · simpa [empty] using Run.nil (List.prefix_append _ _)
  · have stands : StandsFor text
        ⟨front.endPosition.line, front.endPosition.character, line.withoutReturn.units, kind,
          isDeclaration⟩ front line.withoutReturn := by
      refine ⟨?_, empty, fun listed => plain (kept.subset listed), rfl, rfl⟩
      exact ((List.prefix_append_right_inj _).mpr kept).trans begins
    rw [if_neg empty, LineIndex.position_bytes ((List.prefix_append _ _).trans begins)]
    simp only [empty, not_false_eq_true, decide_true, List.filter_cons_of_pos, List.filter_nil,
      List.map_cons, List.map_nil, ne_eq]
    exact .cons List.prefix_rfl stands classified
      (.nil ((List.prefix_append_right_inj _).mpr kept))

theorem run_ofLines {lines : List Text} (begins : front ++ ['\n'].intercalate lines <+: text)
    (plain : ∀ line ∈ lines, '\n' ∉ line) :
    Run text front (front ++ ['\n'].intercalate lines)
      (ofLines (.ofText text) kind isDeclaration front.bytes lines)
      (((lines.map withoutReturn).filter (· ≠ [])).map (leaf, ·)) := by
  induction lines generalizing front with
  | nil => exact .nil (List.prefix_append _ _)
  | cons line more inductionHypothesis =>
      cases more with
      | nil =>
          have whole : ['\n'].intercalate [line] = line := by simp [List.intercalate]
          rw [whole] at begins ⊢
          exact run_line classified begins (plain line (.head _))
      | cons next more =>
          have whole : front ++ ['\n'].intercalate (line :: next :: more) =
              front ++ line ++ ['\n'] ++ ['\n'].intercalate (next :: more) := by
            simp [List.intercalate]
          rw [whole] at begins ⊢
          have first : front ++ line <+: text := by
            rw [List.append_assoc (front ++ line)] at begins
            exact (List.prefix_append _ _).trans begins
          have stop : (front ++ line ++ ['\n']).bytes = front.bytes + line.bytes + 1 := by
            simp only [bytes_append]
            rfl
          have rest := inductionHypothesis begins fun line listed => plain line (.tail _ listed)
          rw [stop] at rest
          have here := run_line classified first (plain line (.head _))
          have joined := here.append (.of_later (List.prefix_append _ ['\n']) rest)
          rw [ofLines_cons]
          simpa only [List.map_cons, List.map_nil, ← List.map_append, ← List.filter_append,
            List.singleton_append] using joined

end

section

variable {text front : Text}

/-- The highlights of a token stand for its strokes. -/
theorem run_ofLeaf {leaf : Leaf} (begins : front ++ leaf.text <+: text)
    (start : leaf.start = front.bytes) :
    Run text front (front ++ leaf.text) (ofLeaf (.ofText text) leaf)
      (if (classify? leaf).isSome then leaf.strokes.map (leaf, ·) else []) := by
  rw [ofLeaf]
  cases classified : classify? leaf with
  | none => exact .nil (List.prefix_append _ _)
  | some found =>
      have whole : ['\n'].intercalate (leaf.text.splitOn '\n') = leaf.text :=
        List.intercalate_splitOn _
      rw [← whole] at begins
      have run := run_ofLines classified begins fun _ listed => notMem_of_mem_splitOn listed
      rw [whole] at run
      rw [start, lines_eq_splitOn]
      exact run

/-- The highlights of the tokens from some place of the text on. -/
theorem run_leaves {leaves : List Leaf}
    (whole : text = front ++ Token.textOf (leaves.map Leaf.token))
    (located : leaves.map (fun leaf => (leaf.token, leaf.start)) =
      Token.located front.bytes (leaves.map Leaf.token)) :
    Run text front text (leaves.flatMap (ofLeaf (.ofText text)))
      ((leaves.filter fun leaf => (classify? leaf).isSome).flatMap fun leaf =>
        leaf.strokes.map (leaf, ·)) := by
  induction leaves generalizing front with
  | nil => exact .nil ⟨_, whole.symm⟩
  | cons leaf rest inductionHypothesis =>
      simp only [List.map_cons, Token.located, List.cons.injEq, Prod.mk.injEq, true_and] at located
      have split : text = front ++ leaf.text ++ Token.textOf (rest.map Leaf.token) := by
        simpa [Token.textOf, Leaf.text] using whole
      have stop : front.bytes + leaf.token.width = (front ++ leaf.text).bytes := by
        rw [bytes_append]
        rfl
      rw [stop] at located
      have here := run_ofLeaf ⟨_, split.symm⟩ located.1
      have run := here.append (inductionHypothesis split located.2)
      rw [List.flatMap_cons, List.filter_cons]
      by_cases classified : (classify? leaf).isSome = true
      · simpa [classified] using run
      · simpa [classified] using run

end

end Highlight

namespace Document

variable {document : Document} {text : Text}

theorem run_highlights (opened : ofText text = .ok document) :
    Highlight.Run text [] text document.highlights document.root.strokes := by
  obtain ⟨rfl, -⟩ := eq_of_ofText opened
  have tokens := (Parse.ofText text).root.token_leaves
  have located := (Parse.ofText text).root.located_leaves
  rw [← tokens] at located
  have whole : text = [] ++ Token.textOf ((Parse.ofText text).root.leaves.map Leaf.token) := by
    rw [tokens]
    exact (Parse.text_root text).symm
  exact Highlight.run_leaves whole located

/-- The highlights of a document stand one to one and in order for the lines of the tokens that have
a class, each without one carriage return at its end and unless nothing is left of it: a highlight
is of its token's class and spans that very piece of its line. So it has a length and stays within
an existing line, and a highlight starts no earlier than those before it stop. -/
theorem highlights_spell_strokes (opened : ofText text = .ok document) :
    List.Forall₂ (fun highlight stroke =>
        highlight.HasClassOf stroke.1 ∧ highlight.Spells text stroke.2)
      document.highlights document.root.strokes ∧
    (∀ highlight ∈ document.highlights, 0 < highlight.length ∧
      ∃ line : Text, (text.splitOn '\n')[highlight.line]? = some line ∧
        highlight.column + highlight.length ≤ line.units) ∧
    document.highlights.Pairwise fun earlier later => earlier.line < later.line ∨
      earlier.line = later.line ∧ earlier.column + earlier.length ≤ later.column := by
  have run := run_highlights opened
  refine ⟨run.spells, ?_, ?_⟩
  · intro highlight listed
    obtain ⟨_, piece, stands⟩ := run.exists_standsFor highlight listed
    obtain ⟨before, after, line, column, length⟩ := stands.spells
    refine ⟨stands.length_pos, _, line, ?_⟩
    rw [units_append, units_append, column, length]
    omega
  · exact run.ordered.imp fun ordered => Position.le_iff.mp ordered

/-- A string over two lines, with a carriage return and a surrogate pair in it. -/
theorem highlights_spell_strokes_lines :
    ∃ document, ofText ['"', 'é', '\r', '\n', '𝄞', '"', ' ', 'x'] = .ok document ∧
      document.highlights.map (fun highlight =>
        (highlight.line, highlight.column, highlight.length)) =
        [(0, 0, 2), (1, 0, 3), (1, 4, 1)] ∧
      document.root.strokes.map Prod.snd = [['"', 'é'], ['𝄞', '"'], ['x']] ∧
      List.Forall₂ (fun highlight stroke => highlight.HasClassOf stroke.1 ∧
          highlight.Spells ['"', 'é', '\r', '\n', '𝄞', '"', ' ', 'x'] stroke.2)
        document.highlights document.root.strokes := by
  have opened := ofText_of_shallow (by decide)
    (show (Parse.ofText ['"', 'é', '\r', '\n', '𝄞', '"', ' ', 'x']).tooDeep = false by
      decide +kernel)
  exact ⟨_, opened, by decide +kernel, by decide +kernel, (highlights_spell_strokes opened).1⟩

end Document

end Scrapscript
