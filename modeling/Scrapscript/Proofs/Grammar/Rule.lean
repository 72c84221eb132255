import Scrapscript.Proofs.Grammar.Phrase

/-!
What rules do. A rule *builds* nodes of a sort if it finds one wherever an expression starts and
gets there by the moves of a parse. Wrapping a node into a larger one, once or again and again,
builds from what was built.
-/

namespace Scrapscript

open Scrapscript.Tree (leaves withoutTrivia isError)

/-- How a rule may end at a cursor. A node is found exactly where an expression starts, unless the
nesting limit is hit on the way, which leaves an error node. -/
def Outcome.Meets (cursor : Cursor) (good : Tree → Cursor → Prop) : Outcome → Prop
  | .found node rest =>
      cursor.seesExpression = true ∧ rest.words.length < cursor.words.length ∧
        node.isNode = true ∧ Placed cursor.settled [node] rest ∧
        (rest.tooDeep = false → good node rest)
  | .absent rest => cursor.seesExpression = false ∧ rest = cursor.settled
  | .cut node rest =>
      rest.tooDeep = true ∧ rest.words = [] ∧
        Placed cursor (leaves cursor.blanks.tokens ++ [node]) rest ∧ isError node = true

def Rule.Builds (rule : Rule) (good : Tree → Cursor → Prop) : Prop :=
  ∀ cursor, (rule cursor).Meets cursor good

namespace Rule

variable {cursor : Cursor} {rule : Rule} {kind : NodeKind} {good better : Tree → Cursor → Prop}

theorem withoutTrivia_isNode {node : Tree} (isNode : node.isNode = true) (others : List Tree) :
    withoutTrivia (node :: others) = node :: withoutTrivia others := by
  cases node with
  | leaf token => simp [Tree.isNode] at isNode
  | node kind children => exact Tree.withoutTrivia_node kind children others

theorem Builds.required (builds : rule.Builds good) (fault : SyntaxFault) (cursor : Cursor) :
    (Phrase.require rule fault).Yields cursor fun row rest =>
      ∃ node, row = [node] ∧ (isError node = true ∨ good node rest) := by
  have meets := builds cursor
  cases ended : rule cursor with
  | found node rest =>
      rw [ended] at meets
      obtain ⟨-, -, isNode, placed, goodNode⟩ := meets
      constructor <;> simp only [Phrase.require, ended]
      · exact .append (.blanks cursor) placed
      · intro shallow
        exact ⟨node, by simp [withoutTrivia_isNode isNode], .inr (goodNode shallow)⟩
      · exact Tree.trimmed_concat _ (Tree.isTrivia_eq_false isNode)
  | absent rest =>
      rw [ended] at meets
      obtain ⟨-, rfl⟩ := meets
      constructor <;> simp only [Phrase.require, ended]
      · exact .append (.blanks cursor) (.missing _ fault)
      · intro shallow
        exact ⟨.node .error [], by simp [Phrase.missing], .inl rfl⟩
      · exact Tree.trimmed_concat _ rfl
  | cut node rest =>
      rw [ended] at meets
      obtain ⟨deep, -, placed, -⟩ := meets
      constructor <;> simp only [Phrase.require, ended]
      · simpa [Phrase.missing] using Placed.append placed (.missing rest fault)
      · intro shallow
        simp [Phrase.missing, deep] at shallow
      · have trimmed : Tree.Trimmed ((leaves cursor.blanks.tokens ++ [node]) ++ [.node .error []]) :=
          Tree.trimmed_concat _ rfl
        simpa [Phrase.missing] using trimmed

/-- Where an expression starts, a rule for one does not come back empty-handed, and the node that it
finds begins there. -/
theorem Builds.allowed (builds : rule.Builds good) (seen : cursor.seesExpression = true) :
    (Phrase.allow rule).Yields cursor fun row rest =>
      ∃ node, row = [node] ∧ good node rest ∧
        node.tokens.head? = cursor.words.head?.map Word.token := by
  have meets := builds cursor
  cases ended : rule cursor with
  | found node rest =>
      rw [ended] at meets
      obtain ⟨-, progress, isNode, placed, goodNode⟩ := meets
      have head : node.tokens.head? = cursor.words.head?.map Word.token := by
        cases next : cursor.words with
        | nil => simp [next] at progress
        | cons word more => simpa [Tree.tokensOf] using placed.head_tokens rfl next progress
      constructor <;> simp only [Phrase.allow, ended]
      · exact .append (.blanks cursor) placed
      · intro shallow
        exact ⟨node, by simp [withoutTrivia_isNode isNode], goodNode shallow, head⟩
      · exact Tree.trimmed_concat _ (Tree.isTrivia_eq_false isNode)
  | absent rest =>
      rw [ended] at meets
      simp [Outcome.Meets, seen] at meets
  | cut node rest =>
      rw [ended] at meets
      obtain ⟨deep, -, placed, error⟩ := meets
      constructor <;> simp only [Phrase.allow, ended]
      · exact placed
      · intro shallow
        simp [deep] at shallow
      · exact Tree.trimmed_concat _ (Tree.isTrivia_eq_false (Tree.isNode_of_isNodeOf error))

theorem Builds.length_allowed_lt (builds : rule.Builds good)
    (seen : cursor.seesExpression = true) (begun : cursor.words ≠ []) :
    (Phrase.allow rule cursor).rest.words.length < cursor.words.length := by
  have meets := builds cursor
  cases ended : rule cursor with
  | found node rest =>
      rw [ended] at meets
      simpa [Phrase.allow, ended] using meets.2.1
  | absent rest =>
      rw [ended] at meets
      simp [Outcome.Meets, seen] at meets
  | cut node rest =>
      rw [ended] at meets
      simpa [Phrase.allow, ended, meets.2.1] using List.length_pos_iff.mpr begun

theorem Builds.settled (builds : rule.Builds good) : (Rule.settled rule).Builds good := by
  intro cursor
  have meets := builds cursor.settled
  rw [Rule.settled]
  cases ended : rule cursor.settled with
  | found node rest =>
      rw [ended] at meets
      simpa [Outcome.Meets] using meets
  | absent rest =>
      rw [ended] at meets
      simpa [Outcome.Meets] using meets
  | cut node rest =>
      rw [ended] at meets
      obtain ⟨deep, exhausted, placed, error⟩ := meets
      exact ⟨deep, exhausted, .append (.blanks cursor) (by simpa [leaves] using placed), error⟩

/-- A rule that always builds a node. -/
theorem build_meets {phrase : Phrase} {result : List Tree → Cursor → Prop}
    (seen : cursor.seesExpression = true) (proper : kind ≠ .error)
    (yields : phrase.Yields cursor.settled result)
    (progress : (phrase cursor.settled).rest.words.length < cursor.words.length)
    (formed : ∀ row rest, result row rest → Formed kind row)
    (goodNode : ∀ children rest, good (.node kind children) rest) :
    (build kind phrase cursor).Meets cursor good :=
  ⟨seen, progress, rfl, yields.node progress proper formed, fun _ => goodNode _ _⟩

theorem nothing_meets (unseen : cursor.seesExpression = false) :
    (nothing cursor).Meets cursor good :=
  ⟨unseen, rfl⟩

/-- Wrapping a node that was found into a larger one, together with what a phrase places after
it. -/
theorem placed_wrapped {node : Tree} {rest : Cursor} {tail : Phrase}
    {result : List Tree → Cursor → Prop} (proper : kind ≠ .error)
    (progress : rest.words.length < cursor.words.length) (isNode : node.isNode = true)
    (placed : Placed cursor.settled [node] rest) (yields : tail.Yields rest result)
    (formed : rest.tooDeep = false → ∀ row ending, result row ending → Formed kind (node :: row)) :
    Placed cursor.settled [.node kind (node :: (tail rest).trees)] (tail rest).rest := by
  have begun : cursor.settled.words ≠ [] := by
    rw [Cursor.settled_words, ← List.length_pos_iff]
    omega
  have trimmed : Tree.Trimmed (node :: (tail rest).trees) :=
    (Tree.trimmed_concat [] (Tree.isTrivia_eq_false isNode)).append yields.trimmed
  refine .node begun rfl proper (.append placed yields.placed)
    (trimmed.ended (List.cons_ne_nil _ _)) fun shallow => ?_
  rw [withoutTrivia_isNode isNode]
  exact formed (yields.placed.not_tooDeep shallow) _ _ (yields.result shallow)

theorem Builds.extended {condition : Cursor → Bool} {tail : Phrase}
    {result : List Tree → Cursor → Prop} (builds : rule.Builds good) (proper : kind ≠ .error)
    (yields : ∀ cursor, condition cursor = true → tail.Yields cursor result)
    (formed : ∀ node rest row ending, good node rest → result row ending →
      Formed kind (node :: row))
    (larger : ∀ node rest children ending, good node rest →
      result (withoutTrivia children) ending → better (.node kind (node :: children)) ending)
    (alone : ∀ node rest, good node rest → better node rest) :
    (rule.extended condition kind tail).Builds better := by
  intro cursor
  have meets := builds cursor
  unfold Rule.extended
  cases ended : rule cursor with
  | found node rest =>
      rw [ended] at meets
      obtain ⟨seen, progress, isNode, placed, goodNode⟩ := meets
      by_cases holds : condition rest = true
      · have tailYields := yields rest holds
        simp only [holds, if_true]
        refine ⟨seen, Nat.lt_of_le_of_lt tailYields.placed.length_words_le progress, rfl, ?_, ?_⟩
        · exact placed_wrapped proper progress isNode placed tailYields fun shallow row ending =>
            formed node rest row ending (goodNode shallow)
        · intro shallow
          exact larger node rest _ _ (goodNode (tailYields.placed.not_tooDeep shallow))
            (tailYields.result shallow)
      · simp only [holds]
        exact ⟨seen, progress, isNode, placed, fun shallow => alone node rest (goodNode shallow)⟩
  | absent rest =>
      rw [ended] at meets
      exact meets
  | cut node rest =>
      rw [ended] at meets
      exact meets

/-- Growing a node that is good gives a node that is good, and uses up a word. -/
structure Grows (growth : Cursor → Option Growth) (good : Tree → Cursor → Prop)
    (result : Cursor → Growth → List Tree → Cursor → Prop) : Prop where
  proper : ∀ cursor larger, growth cursor = some larger → larger.kind ≠ .error
  yields : ∀ cursor larger, growth cursor = some larger →
    larger.tail.Yields cursor (result cursor larger)
  progress : ∀ cursor larger, growth cursor = some larger →
    (larger.tail cursor).rest.words.length < cursor.words.length
  formed : ∀ node cursor larger row rest, good node cursor → growth cursor = some larger →
    result cursor larger row rest → Formed larger.kind (node :: row)
  kept : ∀ node cursor larger children rest, good node cursor → growth cursor = some larger →
    result cursor larger (withoutTrivia children) rest →
    good (.node larger.kind (node :: children)) rest

section

variable {growth : Cursor → Option Growth}
  {result : Cursor → Growth → List Tree → Cursor → Prop}

theorem Grows.growth_eq_none (grows : Grows growth good result) (exhausted : cursor.words = []) :
    growth cursor = none := by
  cases next : growth cursor with
  | none => rfl
  | some larger =>
      have less := grows.progress cursor larger next
      simp [exhausted] at less

/-- Rounds of growth keep what is good of a node, and end where there is no larger one. -/
theorem Grows.grow_meets (grows : Grows growth good result) (seen : cursor.seesExpression = true)
    (rounds : List Word) (node : Tree) (rest : Cursor)
    (enough : rest.words.length ≤ rounds.length)
    (shorter : rest.words.length < cursor.words.length) (isNode : node.isNode = true)
    (placed : Placed cursor.settled [node] rest)
    (goodNode : rest.tooDeep = false → good node rest) :
    (grow growth rounds node rest).Meets cursor
      fun node rest => good node rest ∧ growth rest = none := by
  induction rounds generalizing node rest with
  | nil =>
      have ended := grows.growth_eq_none (List.length_eq_zero_iff.mp (Nat.le_zero.mp enough))
      exact ⟨seen, shorter, isNode, placed, fun shallow => ⟨goodNode shallow, ended⟩⟩
  | cons round rounds inductionHypothesis =>
      unfold grow
      cases next : growth rest with
      | none => exact ⟨seen, shorter, isNode, placed, fun shallow => ⟨goodNode shallow, next⟩⟩
      | some larger =>
          have tailYields := grows.yields rest larger next
          have less := grows.progress rest larger next
          rw [List.length_cons] at enough
          apply inductionHypothesis
          · omega
          · omega
          · rfl
          · exact placed_wrapped (grows.proper rest larger next) shorter isNode placed tailYields
              fun shallow row ending =>
                grows.formed node rest larger row ending (goodNode shallow) next
          · intro shallow
            exact grows.kept node rest larger _ _
              (goodNode (tailYields.placed.not_tooDeep shallow)) next (tailYields.result shallow)

theorem Builds.grown (builds : rule.Builds good) (grows : Grows growth good result) :
    (rule.grown growth).Builds fun node rest => good node rest ∧ growth rest = none := by
  intro cursor
  have meets := builds cursor
  unfold Rule.grown
  cases ended : rule cursor with
  | found node rest =>
      rw [ended] at meets
      obtain ⟨seen, shorter, isNode, placed, goodNode⟩ := meets
      exact grows.grow_meets seen rest.words node rest (Nat.le_refl _) shorter isNode placed
        goodNode
  | absent rest =>
      rw [ended] at meets
      exact meets
  | cut node rest =>
      rw [ended] at meets
      exact meets

end

theorem Builds.mono (builds : rule.Builds good)
    (weaken : ∀ node rest, good node rest → better node rest) : rule.Builds better := by
  intro cursor
  have meets := builds cursor
  cases ended : rule cursor with
  | found node rest =>
      rw [ended] at meets
      obtain ⟨seen, shorter, isNode, placed, goodNode⟩ := meets
      exact ⟨seen, shorter, isNode, placed, fun shallow => weaken node rest (goodNode shallow)⟩
  | absent rest =>
      rw [ended] at meets
      exact meets
  | cut node rest =>
      rw [ended] at meets
      exact meets

/-- Taking words as long as there are any leaves only the blanks after the last one. -/
theorem repeated_take (rounds : List Word) (cursor : Cursor) (all : rounds = cursor.words) :
    ∃ tokens last,
      Phrase.repeated (! ·.atEnd) Phrase.take rounds cursor =
        ⟨leaves tokens, { cursor with
          blanks := last, words := [], stop := cursor.stop + Token.widthOf tokens }⟩ ∧
      tokens ++ last.tokens = cursor.remaining := by
  induction rounds generalizing cursor with
  | nil =>
      refine ⟨[], cursor.blanks, ?_, by simp [Cursor.remaining, ← all]⟩
      simp [Phrase.repeated, leaves, all, Token.widthOf]
  | cons word rounds inductionHypothesis =>
      have next : cursor.words = word :: rounds := all.symm
      have inside : (!cursor.atEnd) = true := by simp [Cursor.atEnd, next]
      rcases inductionHypothesis cursor.advanced (by rw [Cursor.advanced_eq next]) with
        ⟨tokens, last, drained, remaining⟩
      refine ⟨cursor.blanks.tokens ++ word.token :: tokens, last, ?_, ?_⟩
      · simp only [Phrase.repeated, inside, if_true, Phrase.take_eq next, drained]
        rw [Cursor.advanced_eq next]
        simp [leaves, Cursor.start, Token.widthOf, Nat.add_assoc]
      · rw [List.append_assoc, List.cons_append, remaining, Cursor.remaining_advanced next]

theorem cutOff_builds (good : Tree → Cursor → Prop) : cutOff.Builds good := by
  intro cursor
  rcases repeated_take cursor.settled.words cursor.settled rfl with
    ⟨tokens, last, drained, remaining⟩
  refine ⟨rfl, ?_, ?_, rfl⟩
  · simp only [Phrase.many, drained, Cursor.report_words]
  · simp only [Phrase.many, drained]
    exact .cut _ remaining

end Rule

end Scrapscript
