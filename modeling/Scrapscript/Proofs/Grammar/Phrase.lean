import Scrapscript.Proofs.Grammar.Placed

/-!
What phrases do. A phrase *yields* a row if it gets there by the moves of a parse; what is said of
the row holds of a parse that was not cut off.
-/

namespace Scrapscript

open Scrapscript.Tree (leaves withoutTrivia isError)

namespace Cursor

theorem sees_iff {cursor : Cursor} {kind : TokenKind} :
    cursor.sees kind = true ↔
      ∃ word more, cursor.words = word :: more ∧ word.token.kind = kind := by
  cases next : cursor.words with
  | nil => simp [sees, kind?, next]
  | cons word more => simp [sees, kind?, next]

theorem atEnd_eq_false_iff {cursor : Cursor} :
    cursor.atEnd = false ↔ ∃ word more, cursor.words = word :: more := by
  cases next : cursor.words <;> simp [atEnd, next]

theorem words_ne_nil_of_sees {cursor : Cursor} {kind : TokenKind}
    (seen : cursor.sees kind = true) : cursor.words ≠ [] := by
  rcases sees_iff.mp seen with ⟨word, more, next, -⟩
  simp [next]

theorem length_advanced_lt {cursor : Cursor} (begun : cursor.words ≠ []) :
    cursor.advanced.words.length < cursor.words.length := by
  cases next : cursor.words with
  | nil => contradiction
  | cons word more => simp [advanced_eq next]

theorem advanced_kind? (cursor : Cursor) : cursor.advanced.kind? = cursor.following? := by
  cases next : cursor.words with
  | nil => simp [advanced, kind?, following?, next]
  | cons word more => simp [advanced_eq next, kind?, following?, next]

theorem sees_of_kind? {cursor : Cursor} {token : TokenKind} (next : cursor.kind? = some token) :
    cursor.sees token = true := by
  simp [sees, next]

theorem seesExpression_of_starts {cursor : Cursor} {token : TokenKind}
    (next : cursor.kind? = some token) (starts : token.startsArgument = true) :
    cursor.seesExpression = true := by
  simp [seesExpression, seesArgument, next, starts]

theorem seesExpression_eq_false {cursor : Cursor} {token : TokenKind}
    (next : cursor.kind? = some token) (starts : token.startsArgument = false)
    (bar : token ≠ .pipe) (sign : token ≠ .minus) : cursor.seesExpression = false := by
  simp [seesExpression, seesArgument, seesNegative, sees, next, starts, bar, sign]

end Cursor

/-- A phrase goes through at a cursor, and leaves a row and a cursor as described. Blanks are placed
only before something else. -/
structure Phrase.Yields (phrase : Phrase) (cursor : Cursor) (result : List Tree → Cursor → Prop) :
    Prop where
  placed : Placed cursor (phrase cursor).trees (phrase cursor).rest
  result : (phrase cursor).rest.tooDeep = false →
    result (withoutTrivia (phrase cursor).trees) (phrase cursor).rest
  trimmed : Tree.Trimmed (phrase cursor).trees

namespace Phrase

variable {cursor : Cursor} {phrase : Phrase} {phrases : List Phrase}
  {kind : NodeKind} {first second result weaker : List Tree → Cursor → Prop}

theorem Yields.mono (yields : phrase.Yields cursor result)
    (weaken : ∀ row rest, result row rest → weaker row rest) : phrase.Yields cursor weaker :=
  ⟨yields.placed, fun shallow => weaken _ _ (yields.result shallow), yields.trimmed⟩

/-- Only what a phrase does at the cursor matters. -/
theorem Yields.of_eq {other : Phrase} (yields : other.Yields cursor result)
    (same : phrase cursor = other cursor) : phrase.Yields cursor result := by
  constructor <;> rw [same]
  · exact yields.placed
  · exact yields.result
  · exact yields.trimmed

theorem Yields.followedBy (yields : phrase.Yields cursor first)
    (others : (sequence phrases).Yields (phrase cursor).rest second) :
    (sequence (phrase :: phrases)).Yields cursor fun row rest =>
      ∃ before middle after, row = before ++ after ∧ first before middle ∧ second after rest :=
  ⟨.append yields.placed others.placed, fun shallow =>
    ⟨_, _, _, Tree.withoutTrivia_append _ _, yields.result (others.placed.not_tooDeep shallow),
      others.result shallow⟩, yields.trimmed.append others.trimmed⟩

theorem sequence_singleton (cursor : Cursor) : sequence [phrase] cursor = phrase cursor := by
  simp [sequence]

theorem Yields.only (yields : phrase.Yields cursor result) :
    (sequence [phrase]).Yields cursor result :=
  yields.of_eq (sequence_singleton cursor)

theorem placed_blanks (cursor : Cursor) :
    Placed cursor (sequence [blanks] cursor).trees (sequence [blanks] cursor).rest := by
  rw [sequence_singleton]
  exact .blanks cursor

theorem take_eq {word : Word} {more : List Word} (next : cursor.words = word :: more) :
    take cursor = ⟨leaves cursor.blanks.tokens ++ [.leaf word.token], cursor.advanced⟩ := by
  simp [take, next]

theorem yields_take {token : TokenKind} (seen : cursor.sees token = true)
    (proper : token ≠ .error) :
    take.Yields cursor fun row rest =>
      (∃ leaf, row = [leaf] ∧ leaf.isToken token = true) ∧ rest = cursor.advanced := by
  rcases Cursor.sees_iff.mp seen with ⟨word, more, next, rfl⟩
  refine ⟨?_, fun _ => ?_, ?_⟩ <;> rw [take_eq next]
  · exact .word next proper
  · exact ⟨⟨.leaf word.token, by simp, by simp [Tree.isToken, Tree.isTokenOf]⟩, rfl⟩
  · exact Tree.trimmed_concat _ word.significant

theorem take_rest {token : TokenKind} (seen : cursor.sees token = true) :
    (take cursor).rest = cursor.advanced := by
  rcases Cursor.sees_iff.mp seen with ⟨word, more, next, -⟩
  rw [take_eq next]

theorem length_take_lt {token : TokenKind} (seen : cursor.sees token = true) :
    (take cursor).rest.words.length < cursor.words.length := by
  rw [take_rest seen]
  exact Cursor.length_advanced_lt (Cursor.words_ne_nil_of_sees seen)

/-- A phrase that starts with a token. -/
theorem yields_takeThen {token : TokenKind} (seen : cursor.sees token = true)
    (proper : token ≠ .error) (others : (sequence phrases).Yields cursor.advanced second) :
    (sequence (take :: phrases)).Yields cursor fun row rest =>
      ∃ leaf after, row = leaf :: after ∧ leaf.isToken token = true ∧ second after rest := by
  rw [← take_rest seen] at others
  apply ((yields_take seen proper).followedBy others).mono
  intro row rest yielded
  obtain ⟨before, middle, after, rfl, ⟨⟨leaf, rfl, isToken⟩, -⟩, second⟩ := yielded
  exact ⟨leaf, after, rfl, isToken, second⟩

/-- A phrase that starts with a token uses up a word. -/
theorem length_takeThen_lt {token : TokenKind} (seen : cursor.sees token = true)
    (others : (sequence phrases).Yields cursor.advanced second) :
    (sequence (take :: phrases) cursor).rest.words.length < cursor.words.length := by
  have ending : (sequence (take :: phrases) cursor).rest =
      (sequence phrases cursor.advanced).rest := by
    simp only [sequence, take_rest seen]
  rw [ending]
  exact Nat.lt_of_le_of_lt others.placed.length_words_le
    (Cursor.length_advanced_lt (Cursor.words_ne_nil_of_sees seen))

theorem yields_missing (fault : SyntaxFault) :
    (missing fault).Yields cursor fun row _ => ∃ node, row = [node] ∧ isError node = true :=
  ⟨.missing cursor fault, fun _ => ⟨_, Tree.withoutTrivia_node _ _ _, rfl⟩,
    Tree.trimmed_concat [] rfl⟩

theorem reject_eq {word : Word} {more : List Word} (fault : SyntaxFault)
    (next : cursor.words = word :: more) :
    reject fault cursor =
      ⟨leaves cursor.blanks.tokens ++ [.node .error [.leaf word.token]],
        (cursor.report fault cursor.start cursor.nextStop).advanced⟩ := by
  have settledNext : (cursor.report fault cursor.start cursor.nextStop).settled.words =
      word :: more := next
  simp [reject, enclose, take_eq settledNext, leaves]

theorem yields_reject (fault : SyntaxFault) (inside : cursor.atEnd = false) :
    (reject fault).Yields cursor fun row _ => ∃ node, row = [node] ∧ isError node = true := by
  rcases Cursor.atEnd_eq_false_iff.mp inside with ⟨word, more, next⟩
  refine ⟨?_, fun _ => ?_, ?_⟩ <;> rw [reject_eq fault next]
  · exact .rejected fault next
  · exact ⟨.node .error [.leaf word.token], by simp, rfl⟩
  · exact Tree.trimmed_concat _ rfl

theorem yields_expect (token : TokenKind) (fault : SyntaxFault) (proper : token ≠ .error) :
    (expect token fault).Yields cursor fun row _ =>
      ∃ tree, row = [tree] ∧ (tree.isToken token = true ∨ isError tree = true) := by
  by_cases seen : cursor.sees token = true
  · apply ((yields_take seen proper).mono ?_).of_eq (by simp [expect, seen])
    intro row rest yielded
    obtain ⟨⟨leaf, rfl, isToken⟩, -⟩ := yielded
    exact ⟨leaf, rfl, .inl isToken⟩
  · apply ((yields_missing fault).mono ?_).of_eq (by simp [expect, seen])
    intro row rest yielded
    obtain ⟨node, rfl, error⟩ := yielded
    exact ⟨node, rfl, .inr error⟩

theorem yields_when {condition : Cursor → Bool}
    (yields : condition cursor = true → phrase.Yields cursor result)
    (otherwise : condition cursor = false → result [] cursor) :
    (when condition phrase).Yields cursor result := by
  cases holds : condition cursor with
  | true => exact (yields holds).of_eq (by simp [when, holds])
  | false =>
      have skipped : when condition phrase cursor = ⟨[], cursor⟩ := by simp [when, holds]
      refine ⟨?_, fun _ => ?_, ?_⟩ <;> rw [skipped]
      · exact .nothing cursor
      · exact otherwise holds
      · exact Tree.trimmed_nil

/-- A phrase that uses up a word makes up a node. -/
theorem Yields.node (yields : phrase.Yields cursor.settled result)
    (progress : (phrase cursor.settled).rest.words.length < cursor.words.length)
    (proper : kind ≠ .error) (formed : ∀ row rest, result row rest → Formed kind row) :
    Placed cursor.settled [.node kind (phrase cursor.settled).trees]
      (phrase cursor.settled).rest := by
  have begun : cursor.settled.words ≠ [] := by
    rw [Cursor.settled_words, ← List.length_pos_iff]
    omega
  have filled := yields.placed.trees_ne_nil progress
  exact .node begun rfl proper yields.placed (yields.trimmed.ended filled) fun shallow =>
    formed _ _ (yields.result shallow)

/-- A node around a phrase. -/
theorem Yields.enclosed (yields : phrase.Yields cursor.settled result)
    (progress : (phrase cursor.settled).rest.words.length < cursor.words.length)
    (proper : kind ≠ .error) (formed : ∀ row rest, result row rest → Formed kind row) :
    (enclose kind phrase).Yields cursor fun row rest =>
      ∃ children, row = [.node kind children] ∧ result (withoutTrivia children) rest :=
  ⟨.append (.blanks cursor) (yields.node progress proper formed),
    fun shallow => ⟨(phrase cursor.settled).trees, by simp [enclose], yields.result shallow⟩,
    Tree.trimmed_concat _ rfl⟩

theorem repeated_placed {condition : Cursor → Bool}
    (step : ∀ cursor, condition cursor = true →
      Placed cursor (phrase cursor).trees (phrase cursor).rest)
    (rounds : List Word) (cursor : Cursor) :
    Placed cursor (repeated condition phrase rounds cursor).trees
      (repeated condition phrase rounds cursor).rest := by
  induction rounds generalizing cursor with
  | nil => exact .nothing cursor
  | cons round rounds inductionHypothesis =>
      by_cases holds : condition cursor = true
      · simp only [repeated, holds, if_true]
        exact .append (step cursor holds) (inductionHypothesis _)
      · simp only [repeated, holds]
        exact .nothing cursor

/-- If every round places items of a sort, so do all rounds together. -/
theorem yields_repeated {condition : Cursor → Bool} {item : Tree → Prop}
    (step : ∀ cursor, condition cursor = true →
      phrase.Yields cursor fun row _ => ∀ tree ∈ row, item tree)
    (rounds : List Word) (cursor : Cursor) :
    (repeated condition phrase rounds).Yields cursor fun row _ => ∀ tree ∈ row, item tree := by
  induction rounds generalizing cursor with
  | nil => exact ⟨.nothing cursor, fun _ => nofun, Tree.trimmed_nil⟩
  | cons round rounds inductionHypothesis =>
      by_cases holds : condition cursor = true
      · have others := (inductionHypothesis (phrase cursor).rest).only
        apply (((step cursor holds).followedBy others).mono ?_).of_eq
          (by simp [repeated, holds, sequence])
        intro row rest yielded tree membership
        obtain ⟨before, middle, after, rfl, first, later⟩ := yielded
        rcases List.mem_append.mp membership with inFirst | inOthers
        · exact first tree inFirst
        · exact later tree inOthers
      · have skipped : repeated condition phrase (round :: rounds) cursor = ⟨[], cursor⟩ := by
          simp [repeated, holds]
        refine ⟨?_, fun _ => ?_, ?_⟩ <;> rw [skipped]
        · exact .nothing cursor
        · exact nofun
        · exact Tree.trimmed_nil

theorem yields_many {condition : Cursor → Bool} {item : Tree → Prop}
    (step : ∀ cursor, condition cursor = true →
      phrase.Yields cursor fun row _ => ∀ tree ∈ row, item tree) :
    (many condition phrase).Yields cursor fun row _ => ∀ tree ∈ row, item tree :=
  (yields_repeated step cursor.words cursor).of_eq rfl

/-- A phrase that uses up a word in each round is repeated until its condition fails. -/
theorem repeated_rest {condition : Cursor → Bool}
    (step : ∀ cursor, condition cursor = true →
      (phrase cursor).rest.words.length < cursor.words.length)
    (rounds : List Word) (cursor : Cursor) (enough : cursor.words.length ≤ rounds.length) :
    condition (repeated condition phrase rounds cursor).rest = false
      ∨ (repeated condition phrase rounds cursor).rest.words = [] := by
  induction rounds generalizing cursor with
  | nil =>
      right
      exact List.length_eq_zero_iff.mp (Nat.le_zero.mp enough)
  | cons round rounds inductionHypothesis =>
      by_cases holds : condition cursor = true
      · simp only [repeated, holds, if_true]
        apply inductionHypothesis
        have shorter := step cursor holds
        rw [List.length_cons] at enough
        omega
      · left
        simp [repeated, holds]

/-- A loop that is entered goes through its phrase once and then on as before. -/
theorem many_eq {condition : Cursor → Bool} {word : Word} {more : List Word}
    (next : cursor.words = word :: more) (holds : condition cursor = true) :
    many condition phrase cursor =
      sequence [phrase, repeated condition phrase more] cursor := by
  simp [many, next, repeated, holds, sequence]

end Phrase

end Scrapscript
