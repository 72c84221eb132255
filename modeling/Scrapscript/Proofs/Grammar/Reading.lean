import Scrapscript.Proofs.Grammar.Loop
import Scrapscript.Proofs.Grammar.Words
import Scrapscript.Proofs.Tree.Condensed

/-!
Reading what is written. A phrase or a rule *reads* certain trees between two cursors if it places
them there, up to white space and comments, unless the parse is cut off.
-/

namespace Scrapscript

open Scrapscript.Tree (leaves condensedOf)

/-- Some tokens on one line, from one cursor to another. -/
inductive Cursor.Spans : Cursor → List Token → Cursor → Prop
  | nil {cursor : Cursor} (flat : cursor.afterLineBreak = false) : Spans cursor [] cursor
  | cons {cursor rest : Cursor} {word : Word} {more : List Word} {tokens : List Token}
      (flat : cursor.afterLineBreak = false) (next : cursor.words = word :: more)
      (later : Spans cursor.advanced tokens rest) : Spans cursor (word.token :: tokens) rest

namespace Cursor.Spans

variable {cursor rest : Cursor} {token second : Token} {tokens others : List Token}

theorem flat (spans : cursor.Spans tokens rest) : cursor.afterLineBreak = false := by
  cases spans with
  | nil flat | cons flat => exact flat

theorem append_iff :
    cursor.Spans (tokens ++ others) rest ↔
      ∃ middle, cursor.Spans tokens middle ∧ middle.Spans others rest := by
  induction tokens generalizing cursor with
  | nil =>
      constructor
      · intro spans
        exact ⟨cursor, .nil spans.flat, spans⟩
      · rintro ⟨middle, before, after⟩
        cases before
        exact after
  | cons token tokens inductionHypothesis =>
      constructor
      · intro spans
        cases spans with
        | cons flat next later =>
            obtain ⟨middle, before, after⟩ := inductionHypothesis.mp later
            exact ⟨middle, .cons flat next before, after⟩
      · rintro ⟨middle, before, after⟩
        cases before with
        | cons flat next later => exact .cons flat next (inductionHypothesis.mpr ⟨middle, later, after⟩)

theorem settled (spans : cursor.Spans (token :: tokens) rest) :
    cursor.settled.Spans (token :: tokens) rest := by
  cases spans with
  | @cons _ _ word more _ flat next later =>
      have settledNext : cursor.settled.words = word :: more := next
      rw [← Cursor.settled_advanced] at later
      exact .cons rfl settledNext later

theorem settled_of_ne_nil (spans : cursor.Spans tokens rest) (begun : tokens ≠ []) :
    cursor.settled.Spans tokens rest := by
  obtain ⟨token, tokens, rfl⟩ := List.exists_cons_of_ne_nil begun
  exact spans.settled

theorem kind? (spans : cursor.Spans (token :: tokens) rest) : cursor.kind? = some token.kind := by
  cases spans with
  | cons flat next later => simp [Cursor.kind?, next]

theorem following? (spans : cursor.Spans (token :: second :: tokens) rest) :
    cursor.following? = some second.kind := by
  cases spans with
  | cons flat next later => rw [← Cursor.advanced_kind?, later.kind?]

theorem eq_advanced (spans : cursor.Spans [token] rest) : rest = cursor.advanced := by
  cases spans with
  | cons flat next later =>
      cases later
      rfl

theorem sees (spans : cursor.Spans (token :: tokens) rest) {kind : TokenKind}
    (same : token.kind = kind) : cursor.sees kind = true := by
  rw [Cursor.sees, spans.kind?, same]
  exact beq_self_eq_true _

/-- Between the cursors nothing happens but that words are used up. -/
theorem errors (spans : cursor.Spans tokens rest) : rest.errors = cursor.errors := by
  induction spans with
  | nil => rfl
  | cons flat next later inductionHypothesis =>
      rw [inductionHypothesis, Cursor.advanced_eq next]

end Cursor.Spans

/-- Tokens that are left without a line break are all on one line. -/
theorem Cursor.spans_remaining {cursor : Cursor}
    (flat : ∀ token ∈ cursor.remaining, token.breaksLine = false) :
    ∃ rest, cursor.Spans (cursor.remaining.filter (! ·.isTrivia)) rest ∧ rest.words = [] := by
  rw [Cursor.filter_remaining]
  generalize all : cursor.words = words
  induction words generalizing cursor with
  | nil =>
      refine ⟨cursor, .nil (List.any_eq_false.mpr fun token listed => ?_), all⟩
      simp [flat token (List.mem_append_left _ listed)]
  | cons word words inductionHypothesis =>
      have split := Cursor.remaining_advanced all
      rw [← split] at flat
      have later : cursor.advanced.words = words := by rw [Cursor.advanced_eq all]
      obtain ⟨rest, spans, exhausted⟩ := inductionHypothesis
        (fun token listed => flat token (by simp [listed])) later
      refine ⟨rest, .cons (List.any_eq_false.mpr fun token listed => ?_) all spans, exhausted⟩
      simp [flat token (List.mem_append_left _ listed)]

/-- A phrase reads a row of siblings between two cursors. -/
def Phrase.Reads (phrase : Phrase) (row : List Tree) (cursor rest : Cursor) : Prop :=
  (phrase cursor).rest.tooDeep = false →
    condensedOf id (phrase cursor).trees = row ∧ (phrase cursor).rest = rest

/-- An attempt to build a node reads a tree up to a cursor. -/
def Outcome.Reads (tree : Tree) (rest : Cursor) : Outcome → Prop
  | .found node after => after.tooDeep = false → condensedOf id [node] = [tree] ∧ after = rest
  | .absent _ => False
  | .cut _ after => after.tooDeep = true

namespace Phrase

variable {cursor middle rest : Cursor} {phrase : Phrase} {phrases : List Phrase} {rule : Rule}
  {row others : List Tree} {tree : Tree} {token : Token}

theorem take_of_spans (spans : cursor.Spans [token] rest) :
    take cursor = ⟨leaves cursor.blanks.tokens ++ [.leaf token], rest⟩ := by
  cases spans with
  | cons flat next later =>
      cases later
      exact take_eq next

theorem isTrivia_of_spans (spans : cursor.Spans [token] rest) : token.isTrivia = false := by
  cases spans with
  | @cons _ _ word => exact word.significant

theorem condensedOf_leaf (significant : token.isTrivia = false) :
    condensedOf id [.leaf token] = [.leaf token] := by
  simp [condensedOf, Tree.isTrivia, significant, Tree.condensed]

theorem reads_take (spans : cursor.Spans [token] rest) :
    take.Reads [.leaf token] cursor rest := by
  intro _
  rw [take_of_spans spans]
  simp [condensedOf_leaf (isTrivia_of_spans spans)]

theorem reads_blanks : blanks.Reads [] cursor cursor.settled :=
  fun _ => ⟨by simp [blanks], rfl⟩

/-- One phrase after another. A parse that is not cut off in the others was not cut off before. -/
theorem Reads.followedBy (first : phrase.Reads row cursor middle)
    (second : (sequence phrases).Reads others middle rest)
    (placed : Placed (phrase cursor).rest (sequence phrases (phrase cursor).rest).trees
      (sequence phrases (phrase cursor).rest).rest) :
    (sequence (phrase :: phrases)).Reads (row ++ others) cursor rest := by
  intro shallow
  obtain ⟨trees, reached⟩ := first (placed.not_tooDeep shallow)
  simp only [sequence, reached] at shallow ⊢
  obtain ⟨otherTrees, ended⟩ := second shallow
  exact ⟨by simp [trees, otherTrees], ended⟩

theorem Reads.only (reads : phrase.Reads row cursor rest) :
    (sequence [phrase]).Reads row cursor rest := by
  intro shallow
  rw [sequence_singleton] at shallow ⊢
  exact reads shallow

/-- A phrase that starts with a token. -/
theorem reads_takeThen (spans : cursor.Spans [token] middle)
    (reads : (sequence phrases).Reads row middle rest) :
    (sequence (take :: phrases)).Reads (.leaf token :: row) cursor rest := by
  intro shallow
  simp only [sequence, take_of_spans spans] at shallow ⊢
  obtain ⟨trees, ended⟩ := reads shallow
  refine ⟨?_, ended⟩
  rw [List.append_assoc, Tree.condensedOf_append, Tree.condensedOf_blanks, Tree.condensedOf_append,
    condensedOf_leaf (isTrivia_of_spans spans), trees]
  rfl

theorem reads_expect {kind : TokenKind} {fault : SyntaxFault} (spans : cursor.Spans [token] rest)
    (same : token.kind = kind) : (expect kind fault).Reads [.leaf token] cursor rest := by
  have seen := spans.sees same
  simpa [Reads, expect, seen] using reads_take spans

theorem reads_require (reads : (rule cursor).Reads tree rest) (fault : SyntaxFault) :
    (require rule fault).Reads [tree] cursor rest := by
  intro shallow
  unfold require at shallow ⊢
  cases ended : rule cursor <;> rw [ended] at reads <;> simp only [ended] at shallow ⊢
  case found node after =>
    obtain ⟨same, reached⟩ := reads shallow
    exact ⟨by simp [same], reached⟩
  case absent => exact reads.elim
  case cut node after =>
    have deep : after.tooDeep = true := reads
    simp [missing, deep] at shallow

theorem reads_allow (reads : (rule cursor).Reads tree rest) :
    (allow rule).Reads [tree] cursor rest := by
  intro shallow
  unfold allow at shallow ⊢
  cases ended : rule cursor <;> rw [ended] at reads <;> simp only [ended] at shallow ⊢
  case found node after =>
    obtain ⟨same, reached⟩ := reads shallow
    exact ⟨by simp [same], reached⟩
  case absent => exact reads.elim
  case cut node after =>
    have deep : after.tooDeep = true := reads
    simp [deep] at shallow

theorem reads_when {condition : Cursor → Bool} (holds : condition cursor = true)
    (reads : phrase.Reads row cursor rest) : (when condition phrase).Reads row cursor rest := by
  simpa only [Reads, when, holds, if_true] using reads

theorem reads_skipped {condition : Cursor → Bool} (fails : condition cursor = false) :
    (when condition phrase).Reads [] cursor cursor := by
  intro _
  simp [when, fails]

theorem Reads.enclose {kind : NodeKind} (reads : phrase.Reads row cursor.settled rest) :
    (Phrase.enclose kind phrase).Reads [.node kind row] cursor rest := by
  intro shallow
  obtain ⟨trees, reached⟩ := reads shallow
  exact ⟨by simp [Phrase.enclose, trees], reached⟩

/-- A loop that ends at once. -/
theorem reads_many_nil {condition : Cursor → Bool} (advances : Advances condition phrase)
    (fails : condition cursor = false) : (many condition phrase).Reads [] cursor cursor := by
  intro _
  rw [(Repeated.done fails).many_eq advances]
  simp

/-- A loop that goes through its phrase once and then on. -/
theorem reads_many_cons {condition : Cursor → Bool} (advances : Advances condition phrase)
    (placed : ∀ cursor, condition cursor = true →
      Placed cursor (phrase cursor).trees (phrase cursor).rest)
    (more : condition cursor = true) (first : phrase.Reads row cursor middle)
    (later : (many condition phrase).Reads others middle rest) :
    (many condition phrase).Reads (row ++ others) cursor rest := by
  intro shallow
  have repeated := advances.many (phrase cursor).rest
  rw [(Repeated.round more repeated).many_eq advances] at shallow ⊢
  obtain ⟨trees, reached⟩ := first ((repeated.placed placed).not_tooDeep shallow)
  simp only [reached] at shallow ⊢
  obtain ⟨otherTrees, ended⟩ := later shallow
  exact ⟨by simp [trees, otherTrees], ended⟩

end Phrase

namespace Rule

variable {cursor middle rest : Cursor} {rule : Rule} {tree : Tree} {row : List Tree}
  {kind : NodeKind}

theorem reads_build {phrase : Phrase} (reads : phrase.Reads row cursor.settled rest) :
    (build kind phrase cursor).Reads (.node kind row) rest := by
  intro shallow
  obtain ⟨trees, reached⟩ := reads shallow
  exact ⟨by simp [trees], reached⟩

theorem reads_cutOff : (cutOff cursor).Reads tree rest := rfl

section

variable {condition : Cursor → Bool} {tail : Phrase}
  (placed : ∀ cursor, condition cursor = true → Placed cursor (tail cursor).trees (tail cursor).rest)

include placed

/-- A node that is the first child of a larger one. -/
theorem reads_extended (first : (rule cursor).Reads tree middle) (holds : condition middle = true)
    (reads : tail.Reads row middle rest) :
    (rule.extended condition kind tail cursor).Reads (.node kind (tree :: row)) rest := by
  unfold Rule.extended
  cases ended : rule cursor <;> rw [ended] at first
  case found node after =>
    dsimp only
    cases deep : after.tooDeep with
    | false =>
        obtain ⟨same, reached⟩ := first deep
        simp only [reached, holds, if_true]
        intro shallow
        obtain ⟨trees, last⟩ := reads shallow
        rw [Tree.condensedOf_node, Tree.condensedOf_cons, same, trees]
        exact ⟨by simp, last⟩
    | true =>
        split
        · rename_i goesOn
          intro shallow
          rw [(placed after goesOn).not_tooDeep shallow] at deep
          contradiction
        · intro shallow
          rw [shallow] at deep
          contradiction
  case absent => exact first.elim
  case cut => exact first

/-- A node that is left as it is. -/
theorem reads_unextended (first : (rule cursor).Reads tree rest) (fails : condition rest = false) :
    (rule.extended condition kind tail cursor).Reads tree rest := by
  unfold Rule.extended
  cases ended : rule cursor <;> rw [ended] at first
  case found node after =>
    dsimp only
    split
    · rename_i goesOn
      intro shallow
      obtain ⟨-, reached⟩ := first ((placed after goesOn).not_tooDeep shallow)
      rw [reached, fails] at goesOn
      contradiction
    · exact first
  case absent => exact first.elim
  case cut => exact first

end

/-- A rule finds a node that grows into one that reads as a tree up to a cursor, unless the parse is
cut off on the way. -/
def GrowsTo (rule : Rule) (growth : Cursor → Option Growth) (cursor : Cursor) (tree : Tree)
    (rest : Cursor) : Prop :=
  (∃ node after, rule cursor = .cut node after ∧ after.tooDeep = true) ∨
    ∃ node middle final last, rule cursor = .found node middle ∧
      Grown growth node middle final last ∧
      (last.tooDeep = false → condensedOf id [final] = [tree] ∧ last = rest)

variable {growth : Cursor → Option Growth}

theorem GrowsTo.start (reads : (rule cursor).Reads tree rest) :
    rule.GrowsTo growth cursor tree rest := by
  cases ended : rule cursor with
  | found node after =>
      rw [ended] at reads
      exact .inr ⟨node, after, node, after, ended, .start, reads⟩
  | absent after =>
      rw [ended] at reads
      exact reads.elim
  | cut node after =>
      rw [ended] at reads
      exact .inl ⟨node, after, ended, reads⟩

theorem GrowsTo.step {larger : Growth} (growing : rule.GrowsTo growth cursor tree middle)
    (grows : growth middle = some larger) (reads : larger.tail.Reads row middle rest) :
    rule.GrowsTo growth cursor (.node larger.kind (tree :: row)) rest := by
  rcases growing with cut | ⟨node, first, final, last, found, grown, reached⟩
  · exact .inl cut
  right
  cases deep : last.tooDeep with
  | true => exact ⟨node, first, final, last, found, grown, fun shallow => by simp [deep] at shallow⟩
  | false =>
      obtain ⟨same, rfl⟩ := reached deep
      refine ⟨node, first, _, _, found, .step grown grows, fun shallow => ?_⟩
      obtain ⟨trees, ended⟩ := reads shallow
      rw [Tree.condensedOf_node, Tree.condensedOf_cons, same, trees]
      exact ⟨by simp, ended⟩

/-- A parse that is cut off stays so while a node grows. -/
theorem Grown.not_tooDeep {node final : Tree}
    (placed : ∀ cursor larger, growth cursor = some larger →
      Placed cursor (larger.tail cursor).trees (larger.tail cursor).rest)
    (grown : Grown growth node cursor final rest) (shallow : rest.tooDeep = false) :
    cursor.tooDeep = false := by
  induction grown with
  | start => exact shallow
  | step before grows inductionHypothesis =>
      exact inductionHypothesis ((placed _ _ grows).not_tooDeep shallow)

theorem GrowsTo.reads (growing : rule.GrowsTo growth cursor tree rest) (advances : Advances growth)
    (placed : ∀ cursor larger, growth cursor = some larger →
      Placed cursor (larger.tail cursor).trees (larger.tail cursor).rest)
    (stopped : growth rest = none) : (rule.grown growth cursor).Reads tree rest := by
  rcases growing with ⟨node, after, cut, deep⟩ | ⟨node, middle, final, last, found, grown, reached⟩
  · rw [Rule.grown, cut]
    exact deep
  obtain ⟨largest, ending, more, finished⟩ :=
    exists_grown advances last.words final last (Nat.le_refl _)
  rw [advances.grown_eq_found_iff.mpr ⟨node, middle, found, grown.append more, finished⟩]
  intro shallow
  obtain ⟨same, rfl⟩ := reached (more.not_tooDeep placed shallow)
  obtain ⟨rfl, ended⟩ := more.eq_of_none stopped
  exact ⟨same, ended⟩

end Rule

end Scrapscript
