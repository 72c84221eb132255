import Scrapscript.Proofs.Grammar.Rule

/-!
Rows that fill the places of the table, and how phrases and rules come to yield them.
-/

namespace Scrapscript

open Scrapscript.Tree (withoutTrivia isError isToken isTokenOf isNodeOf)

namespace Tree

theorem hasError_of_isError {tree : Tree} (error : isError tree = true) : tree.hasError = true := by
  cases tree with
  | leaf token => simp [isError, isNodeOf] at error
  | node kind children =>
      simp only [isError, isNodeOf] at error
      simp [hasError, error]

theorem isNodeOf_mono {small large : NodeKind → Bool} {tree : Tree}
    (included : ∀ kind, small kind = true → large kind = true)
    (isNode : tree.isNodeOf small = true) : tree.isNodeOf large = true := by
  cases tree with
  | leaf token => simp [isNodeOf] at isNode
  | node kind children => exact included kind isNode

theorem isError_eq_false {level : NodeKind → Bool} {tree : Tree} (gapless : level .error = false)
    (leveled : tree.isNodeOf level = true) : isError tree = false := by
  cases tree with
  | leaf token => rfl
  | node kind children =>
      apply Bool.eq_false_iff.mpr
      intro error
      obtain rfl : kind = .error := eq_of_beq error
      exact absurd leveled (Bool.eq_false_iff.mp gapless)

theorem isTokenOf_of_isToken {kind : TokenKind} {accepts : TokenKind → Bool} {tree : Tree}
    (accepted : accepts kind = true) (isToken : tree.isToken kind = true) :
    tree.isTokenOf accepts = true := by
  cases tree with
  | leaf token =>
      have same : token.kind = kind := eq_of_beq isToken
      simp [isTokenOf, same, accepted]
  | node kind children => simp [Tree.isToken, isTokenOf] at isToken

end Tree

/-- Kinds of nodes that ask for nothing but the right children. -/
def NodeKind.isPlain (kind : NodeKind) : Bool :=
  kind != .error && !kind.isCompound

theorem NodeKind.ne_error_of_isPlain {kind : NodeKind} (plain : kind.isPlain = true) :
    kind ≠ .error := by
  rintro rfl
  contradiction

theorem Formed.of_allowed {kind : NodeKind} {row : List Tree} (plain : kind.isPlain = true)
    (allowed : Grammar.allows isError kind row = true) : Formed kind row := by
  refine ⟨allowed, fun _ => ?_, fun compound => ?_⟩
  · cases kind <;> first | rfl | exact absurd plain Bool.false_ne_true
  · simp [NodeKind.isPlain, compound] at plain

/-- A compound around a node of some level, where the table asks for nothing but the right
children. -/
theorem Formed.around {kind : NodeKind} {level : NodeKind → Bool} {first : Tree} {row : List Tree}
    (ungrouped : ∀ row, Grammar.groups kind row = true) (gapless : level .error = false)
    (leveled : first.isNodeOf level = true)
    (allowed : Grammar.allows isError kind (first :: row) = true) : Formed kind (first :: row) := by
  refine ⟨allowed, fun _ => ungrouped _, fun _ tree listed => ?_⟩
  obtain rfl : first = tree := Option.some.inj listed
  exact Tree.isError_eq_false gapless leveled

namespace Grammar

open Scrapscript.Phrase Scrapscript.Rule

/-- A narrower row fits into wider places. -/
theorem fills_mono {narrow wide : Tree → Bool} {places others : List (Tree → Bool)}
    (included : ∀ tree, narrow tree = true → wide tree = true)
    (more : ∀ row, fills places row = true → fills others row = true)
    (row : List Tree) (filled : fills (narrow :: places) row = true) :
    fills (wide :: others) row = true := by
  cases row with
  | nil => simp [fills] at filled
  | cons tree row =>
      simp only [fills, Bool.and_eq_true] at filled ⊢
      exact ⟨included tree filled.1, more row filled.2⟩

theorem nodeOf_mono {gap : Tree → Bool} {small large : NodeKind → Bool}
    (included : ∀ kind, small kind = true → large kind = true) (tree : Tree)
    (placed : nodeOf gap small tree = true) : nodeOf gap large tree = true := by
  simp only [nodeOf, Bool.or_eq_true] at placed ⊢
  exact placed.imp_left (Tree.isNodeOf_mono included)

theorem nodeOf_of_kind {gap : Tree → Bool} {kind : NodeKind} {level : NodeKind → Bool}
    (leveled : level kind = true) (tree : Tree) (isNode : tree.isNodeOf (· == kind) = true) :
    nodeOf gap level tree = true := by
  have isLeveled : tree.isNodeOf level = true := by
    refine Tree.isNodeOf_mono (fun other same => ?_) isNode
    rw [eq_of_beq same, leveled]
  simp [nodeOf, isLeveled]

theorem fills_append {places others : List (Tree → Bool)} {row more : List Tree}
    (filled : fills places row = true) (otherFilled : fills others more = true) :
    fills (places ++ others) (row ++ more) = true := by
  induction places generalizing row with
  | nil =>
      cases row with
      | nil => exact otherFilled
      | cons tree row => simp [fills] at filled
  | cons place places inductionHypothesis =>
      cases row with
      | nil => simp [fills] at filled
      | cons tree row =>
          simp only [List.cons_append, fills, Bool.and_eq_true] at filled ⊢
          exact ⟨filled.1, inductionHypothesis filled.2⟩

theorem all_of_fills {place : Tree → Bool} {row : List Tree} (filled : fills [place] row = true) :
    ∀ tree ∈ row, place tree = true := by
  cases row with
  | nil => simp
  | cons first others =>
      cases others with
      | nil => simpa [fills] using filled
      | cons second others => simp [fills] at filled

variable {cursor : Cursor} {phrases : List Phrase} {places : List (Tree → Bool)}

/-- Nodes of some level. -/
def Leveled (level : NodeKind → Bool) : Tree → Cursor → Prop :=
  fun node _ => node.isNodeOf level = true

theorem nodeOf_isError {level : NodeKind → Bool} {node : Tree} {rest : Cursor}
    (leveled : isError node = true ∨ Leveled level node rest) :
    nodeOf isError level node = true := by
  rcases leveled with error | isNode
  · simp [nodeOf, error]
  · have isNode : node.isNodeOf level = true := isNode
    simp [nodeOf, isNode]

theorem yields_required {rule : Rule} {level : NodeKind → Bool}
    (builds : rule.Builds (Leveled level)) (fault : SyntaxFault) (cursor : Cursor) :
    (sequence [require rule fault]).Yields cursor
      fun row _ => fills [nodeOf isError level] row = true := by
  apply ((builds.required fault cursor).mono ?_).only
  intro row rest yielded
  obtain ⟨node, rfl, leveled⟩ := yielded
  simp [fills, nodeOf_isError leveled]

theorem yields_tokenThen {token : TokenKind} (seen : cursor.sees token = true)
    (proper : token ≠ .error)
    (others : (sequence phrases).Yields cursor.advanced fun row _ => fills places row = true) :
    (sequence (take :: phrases)).Yields cursor
      fun row _ => fills (isToken token :: places) row = true := by
  apply (yields_takeThen seen proper others).mono
  intro row rest yielded
  obtain ⟨leaf, after, rfl, isToken, filled⟩ := yielded
  simp [fills, isToken, filled]

theorem yields_token {token : TokenKind} (seen : cursor.sees token = true)
    (proper : token ≠ .error) :
    take.Yields cursor fun row _ => fills [isToken token] row = true := by
  apply (yields_take seen proper).mono
  intro row rest yielded
  obtain ⟨⟨leaf, rfl, isToken⟩, -⟩ := yielded
  simp [fills, isToken]

/-- A larger node whose first child is a node that was built before. -/
theorem builds_extended {rule : Rule} {inner outer : NodeKind → Bool} {kind : NodeKind}
    {token : TokenKind} {tail : Phrase} (builds : rule.Builds (Leveled inner))
    (gapless : inner .error = false) (proper : kind ≠ .error)
    (ungrouped : ∀ row, groups kind row = true)
    (yields : ∀ cursor, cursor.sees token = true →
      tail.Yields cursor fun row _ => fills places row = true)
    (allowed : ∀ row, fills (nodeOf isError inner :: places) row = true →
      allows isError kind row = true)
    (larger : outer kind = true) (included : ∀ kind, inner kind = true → outer kind = true) :
    (settled (rule.extended (·.sees token) kind tail)).Builds (Leveled outer) := by
  refine (builds.extended proper yields ?_ ?_ ?_).settled
  · intro node rest row ending leveled filled
    apply Formed.around ungrouped gapless leveled
    apply allowed
    simp [fills, filled, nodeOf_isError (.inr leveled)]
  · intro node rest children ending leveled filled
    exact larger
  · intro node rest leveled
    exact Tree.isNodeOf_mono included leveled

/-- A larger node again and again, each time around the one before. -/
theorem builds_grown {rule : Rule} {inner outer : NodeKind → Bool} {kind : NodeKind}
    {token : TokenKind} {tail : Phrase} (builds : rule.Builds (Leveled inner))
    (gapless : outer .error = false) (proper : kind ≠ .error)
    (ungrouped : ∀ row, groups kind row = true)
    (yields : ∀ cursor, cursor.sees token = true →
      tail.Yields cursor fun row _ => fills places row = true)
    (progress : ∀ cursor, cursor.sees token = true →
      (tail cursor).rest.words.length < cursor.words.length)
    (allowed : ∀ row, fills (nodeOf isError outer :: places) row = true →
      allows isError kind row = true)
    (larger : outer kind = true) (included : ∀ kind, inner kind = true → outer kind = true) :
    (settled (rule.grown fun cursor =>
      if cursor.sees token then some ⟨kind, tail⟩ else none)).Builds (Leveled outer) := by
  have grows : Grows (fun cursor => if cursor.sees token then some ⟨kind, tail⟩ else none)
      (Leveled outer) (fun _ _ row _ => fills places row = true) := by
    constructor <;> simp only [Option.ite_none_right_eq_some, Option.some.injEq]
    case proper =>
      intro cursor larger growing
      obtain ⟨-, rfl⟩ := growing
      exact proper
    case yields =>
      intro cursor larger growing
      obtain ⟨seen, rfl⟩ := growing
      exact yields cursor seen
    case progress =>
      intro cursor larger growing
      obtain ⟨seen, rfl⟩ := growing
      exact progress cursor seen
    case formed =>
      intro node cursor larger row rest leveled growing filled
      obtain ⟨-, rfl⟩ := growing
      apply Formed.around ungrouped gapless leveled
      apply allowed
      simp [fills, filled, nodeOf_isError (.inr leveled)]
    case kept =>
      intro node cursor larger' children rest leveled growing filled
      obtain ⟨-, rfl⟩ := growing
      exact larger
  have leveled : rule.Builds (Leveled outer) :=
    builds.mono fun node rest isNode => Tree.isNodeOf_mono included isNode
  exact ((leveled.grown grows).mono fun node rest grown => grown.1).settled

/-- A node around a phrase, where the table asks for nothing but the right children. -/
theorem yields_enclosed {kind : NodeKind} {phrase : Phrase} {result : List Tree → Cursor → Prop}
    (yields : phrase.Yields cursor.settled result)
    (progress : (phrase cursor.settled).rest.words.length < cursor.words.length)
    (plain : kind.isPlain = true)
    (allowed : ∀ row rest, result row rest → allows isError kind row = true) :
    (enclose kind phrase).Yields cursor
      fun row _ => fills [isNodeOf (· == kind)] row = true := by
  apply (yields.enclosed progress (NodeKind.ne_error_of_isPlain plain) fun row rest holds =>
    .of_allowed plain (allowed row rest holds)).mono
  intro row rest yielded
  obtain ⟨children, rfl, -⟩ := yielded
  simp [fills, isNodeOf]

end Grammar

end Scrapscript
