import Scrapscript.Proofs.Grammar.Reading
import Scrapscript.Proofs.Grammar.Written

/-!
The grammar reads what can be written. Each construct takes exactly its own tokens, because what
comes after it holds on to it less tightly than the construct asks for.
-/

namespace Scrapscript

open Scrapscript.Tree (isToken isTokenOf isNodeOf)

/-- How tightly a token holds on to an expression right before it. A token that no expression goes
on with does not hold on to it at all. -/
def TokenKind.grip (token : TokenKind) : Nat :=
  match token with
  | .equals => 1
  | .semicolon => 2
  | .colon => 3
  | .arrow => 4
  | .dot => 25
  | _ =>
      if token.startsArgument then 24
      else
        match Grammar.powers? token with
        | some (left, _) => 5 + left
        | none => 0

/-- A tree may end at a cursor: what follows holds on to it less tightly than some bound, and a
pattern match is followed by a closing parenthesis. -/
structure Tree.EndsAt (tree : Tree) (bound : Nat) (rest : Cursor) : Prop where
  loose : ∀ token, rest.kind? = some token → token.grip < bound
  closed : tree.isNodeOf (· == .patternMatch) = true → rest.sees .closeParen = true

/-- A rule reads a tree wherever what follows is loose enough. -/
def Rule.ReadsAt (rule : Rule) (bound : Nat) (tree : Tree) : Prop :=
  ∀ cursor rest, cursor.Spans tree.tokens rest → tree.EndsAt bound rest →
    (rule cursor).Reads tree rest

/-- A level whose constructs read the trees that can be written. No operator binds tighter than 18,
so that an argument holds on more tightly than any of them. -/
structure Level.Reads (below : Level) : Prop where
  sound : below.Sound
  function : ∀ tree, tree.Everywhere Grammar.Written →
    tree.isNodeOf NodeKind.isFunctional = true → below.function.ReadsAt 4 tree
  binary : ∀ tree power, power ≤ 18 → tree.Everywhere Grammar.Written →
    tree.isNodeOf NodeKind.isBinary = true →
    (∀ inner, tree.outerPowers? = some inner → power ≤ inner.1) →
    (below.binary power).ReadsAt (5 + power) tree

namespace Tree.EndsAt

variable {tree other : Tree} {bound : Nat} {rest : Cursor}

theorem mono (ends : tree.EndsAt bound rest) {larger : Nat} (le : bound ≤ larger) :
    tree.EndsAt larger rest :=
  ⟨fun token next => Nat.lt_of_lt_of_le (ends.loose token next) le, ends.closed⟩

theorem sees_eq_false (ends : tree.EndsAt bound rest) {token : TokenKind}
    (tight : bound ≤ token.grip) : rest.sees token = false := by
  refine Bool.eq_false_iff.mpr fun seen => ?_
  have loose := ends.loose token (eq_of_beq seen)
  omega

/-- What a tree ends with may end there, if it is not a pattern match. -/
theorem last (ends : tree.EndsAt bound rest)
    (simple : other.isNodeOf (· == .patternMatch) = false) : other.EndsAt bound rest :=
  ⟨ends.loose, fun isMatch => by simp [simple] at isMatch⟩

end Tree.EndsAt

theorem Tree.endsAt_of_kind? {tree : Tree} {bound : Nat} {rest : Cursor} {token : TokenKind}
    (next : rest.kind? = some token) (loose : token.grip < bound)
    (simple : tree.isNodeOf (· == .patternMatch) = false) : tree.EndsAt bound rest := by
  refine ⟨fun other same => ?_, fun isMatch => by simp [simple] at isMatch⟩
  rw [next, Option.some.injEq] at same
  rwa [← same]

theorem Rule.ReadsAt.mono {rule : Rule} {tree : Tree} {bound large : Nat}
    (reads : rule.ReadsAt large tree) (le : bound ≤ large) : rule.ReadsAt bound tree :=
  fun cursor rest spans ends => reads cursor rest spans (ends.mono le)

namespace Grammar

open Scrapscript.Phrase Scrapscript.Rule

variable {below : Level} {cursor middle rest : Cursor} {tree : Tree}

theorem seesExpression_of_opens {tokens : List Token} (spans : cursor.Spans tokens rest)
    (opened : Token.opens tokens = true) : cursor.seesExpression = true := by
  cases tokens with
  | nil => contradiction
  | cons first others =>
      simp only [Token.opens, Bool.or_eq_true, Bool.and_eq_true, beq_iff_eq] at opened
      have next := spans.kind?
      rcases opened with (starts | bar) | ⟨minus, number⟩
      · exact Cursor.seesExpression_of_starts next starts
      · simp [Cursor.seesExpression, Cursor.sees, next, bar]
      · cases others with
        | nil => simp at number
        | cons second others =>
            have following := spans.following?
            have number : second.kind.isNumber = true := by simpa using number
            simp [Cursor.seesExpression, Cursor.seesNegative, Cursor.sees, next, minus, following,
              number]

theorem tokens_ne_nil (everywhere : tree.Everywhere Written)
    (expression : tree.isNodeOf NodeKind.isExpression = true) : tree.tokens ≠ [] :=
  Token.ne_nil_of_opens (opens_tokens tree everywhere expression)

/-- A row of trees is spanned one tree after the other. -/
theorem spans_tree {row : List Tree} (spans : cursor.Spans (Tree.tokensOf (tree :: row)) rest) :
    ∃ middle, cursor.Spans tree.tokens middle ∧ middle.Spans (Tree.tokensOf row) rest :=
  Cursor.Spans.append_iff.mp spans

/-- A row that begins with a token, once the blanks before it are placed. -/
theorem spans_leaf {row : List Tree} {token : Token}
    (spans : cursor.Spans (Tree.tokensOf (.leaf token :: row)) rest) :
    ∃ next, cursor.settled.Spans [token] next ∧ next.Spans (Tree.tokensOf row) rest := by
  obtain ⟨next, before, after⟩ := spans_tree spans
  exact ⟨next, Cursor.Spans.settled before, after⟩

theorem spans_last (spans : cursor.Spans (Tree.tokensOf [tree]) rest) :
    cursor.Spans tree.tokens rest := by
  simpa [Tree.tokensOf] using spans

/-- Two trees with a token between them, one after the other. -/
theorem spans_joined {kind : NodeKind} {left right : Tree} {symbol : Token}
    (spans : cursor.Spans (Tree.node kind [left, .leaf symbol, right]).tokens rest) :
    ∃ middle next, cursor.Spans left.tokens middle ∧ middle.Spans [symbol] next ∧
      next.Spans right.tokens rest := by
  obtain ⟨middle, before, after⟩ := spans_tree spans
  obtain ⟨next, between, behind⟩ := spans_tree after
  exact ⟨middle, next, before, between, spans_last behind⟩

theorem readsAt_settled {rule : Rule} {bound : Nat} (begun : tree.tokens ≠ [])
    (reads : rule.ReadsAt bound tree) : (Rule.settled rule).ReadsAt bound tree := by
  intro cursor rest spans ends
  exact reads cursor.settled rest (spans.settled_of_ne_nil begun) ends

section

variable {rule inner : Rule} {token : TokenKind} {kind : NodeKind} {fault : SyntaxFault}
  {good : Tree → Cursor → Prop} (builds : inner.Builds good) (proper : token ≠ .error)

include builds proper

theorem placed_tokenThen (cursor : Cursor) (seen : cursor.sees token = true) :
    Placed cursor (sequence [take, require inner fault] cursor).trees
      (sequence [take, require inner fault] cursor).rest :=
  (yields_takeThen seen proper (builds.required fault _).only).placed

/-- Two trees with a token between them. -/
theorem readsAt_joined {left right : Tree} {symbol : Token} {bound large : Nat}
    (first : rule.ReadsAt large left) (second : inner.ReadsAt bound right)
    (same : symbol.kind = token) (loose : token.grip < large)
    (written : Written kind [left, .leaf symbol, right])
    (unlike : (kind == .parenthesized) = false) :
    (rule.extended (·.sees token) kind (sequence [take, require inner fault])).ReadsAt bound
      (.node kind [left, .leaf symbol, right]) := by
  intro cursor rest spans ends
  obtain ⟨middle, next, before, between, behind⟩ := spans_joined spans
  have ending : left.EndsAt large middle := Tree.endsAt_of_kind? (same ▸ between.kind?) loose
    (simple_child written unlike (by simp))
  have last : right.EndsAt bound rest := ends.last (simple_child written unlike (by simp))
  apply reads_extended (placed_tokenThen builds proper) (first cursor middle before ending)
    (between.sees same)
  exact reads_takeThen between
    (reads_require (second next rest behind last) fault).only

/-- A tree that no token of its own follows. -/
theorem readsAt_unjoined {bound large : Nat} (reads : rule.ReadsAt large tree) (le : bound ≤ large)
    (tight : bound ≤ token.grip) :
    (rule.extended (·.sees token) kind (sequence [take, require inner fault])).ReadsAt bound
      tree := by
  intro cursor rest spans ends
  exact reads_unextended (placed_tokenThen builds proper)
    (reads cursor rest spans (ends.mono le)) (ends.sees_eq_false tight)

end

theorem function_reads (reads : below.Reads) (everywhere : tree.Everywhere Written)
    (functional : tree.isNodeOf NodeKind.isFunctional = true) : (function below).ReadsAt 4 tree := by
  have expression : tree.isNodeOf NodeKind.isExpression = true :=
    Tree.isNodeOf_mono (fun kind level => by
      simp [NodeKind.isExpression, NodeKind.isAscribed, level]) functional
  apply readsAt_settled (tokens_ne_nil everywhere expression)
  cases tree with
  | leaf token => contradiction
  | node kind row =>
      rcases (Bool.or_eq_true ..).mp functional with binary | isFunction
      · exact readsAt_unjoined reads.sound.function (by decide)
          (reads.binary _ 0 (by decide) everywhere binary (by simp)) (by decide) (by decide)
      · obtain rfl : kind = .function := eq_of_beq isFunction
        obtain ⟨left, symbol, right, rfl, leftBinary, arrow, rightFunctional⟩ :=
          exists_of_fills_joined everywhere.1.allowed
        exact readsAt_joined reads.sound.function (by decide)
          (reads.binary left 0 (by decide) everywhere.2.1 leftBinary (by simp))
          (reads.function right everywhere.2.2.2.1 rightFunctional) arrow (by decide)
          everywhere.1 rfl

theorem isExpression_of_isBinary (binary : tree.isNodeOf NodeKind.isBinary = true) :
    tree.isNodeOf NodeKind.isExpression = true :=
  Tree.isNodeOf_mono (fun kind level => by
    simp [NodeKind.isExpression, NodeKind.isAscribed, NodeKind.isFunctional, level]) binary

theorem isExpression_of_isAscribed (ascribed : tree.isNodeOf NodeKind.isAscribed = true) :
    tree.isNodeOf NodeKind.isExpression = true :=
  Tree.isNodeOf_mono (fun kind level => by simp [NodeKind.isExpression, level]) ascribed

theorem ascription_reads (reads : below.Reads) (everywhere : tree.Everywhere Written)
    (ascribed : tree.isNodeOf NodeKind.isAscribed = true) : (ascription below).ReadsAt 3 tree := by
  apply readsAt_settled (tokens_ne_nil everywhere (isExpression_of_isAscribed ascribed))
  cases tree with
  | leaf token => contradiction
  | node kind row =>
      rcases (Bool.or_eq_true ..).mp ascribed with functional | isAscription
      · exact readsAt_unjoined reads.sound.function (by decide)
          (reads.function _ everywhere functional) (by decide) (by decide)
      · obtain rfl : kind = .ascription := eq_of_beq isAscription
        obtain ⟨left, symbol, right, rfl, leftFunctional, colon, rightFunctional⟩ :=
          exists_of_fills_joined everywhere.1.allowed
        exact readsAt_joined reads.sound.function (by decide)
          (reads.function left everywhere.2.1 leftFunctional)
          ((reads.function right everywhere.2.2.2.1 rightFunctional).mono (by decide)) colon
          (by decide) everywhere.1 rfl

theorem opens_binding (everywhere : tree.Everywhere Written) (bound : isBinding noGap tree = true) :
    Token.opens tree.tokens = true := by
  rcases binding_parts everywhere bound with ascribed | ⟨left, symbol, right, rfl, ascribed, -⟩
  · exact opens_tokens tree everywhere (isExpression_of_isAscribed ascribed)
  · exact Token.opens_append
      (opens_tokens left everywhere.2.1 (isExpression_of_isAscribed ascribed)) _

theorem bound_reads (reads : below.Reads) (everywhere : tree.Everywhere Written)
    (bound : isBinding noGap tree = true) (spans : cursor.Spans tree.tokens rest)
    (ends : tree.EndsAt 3 rest) (unbound : rest.sees .equals = false) :
    ((ascription below).extended (·.sees .equals) .declaration
      (sequence [take, require (ascription below) .missingBoundExpression]) cursor).Reads
        tree rest := by
  have builds := ascription_builds reads.sound
  rcases binding_parts everywhere bound with
    ascribed | ⟨left, symbol, right, rfl, leftAscribed, equals, rightAscribed⟩
  · exact reads_unextended (placed_tokenThen builds (by decide))
      (ascription_reads reads everywhere ascribed cursor rest spans ends) unbound
  · exact readsAt_joined builds (by decide) (ascription_reads reads everywhere.2.1 leftAscribed)
      (ascription_reads reads everywhere.2.2.2.1 rightAscribed) equals (by decide) everywhere.1 rfl
      cursor rest spans ends

theorem binding_reads (reads : below.Reads) (everywhere : tree.Everywhere Written)
    (bound : isBinding noGap tree = true) (spans : cursor.Spans tree.tokens rest)
    (ends : tree.EndsAt 3 rest) (unbound : rest.sees .equals = false) :
    (binding below).Reads [tree] cursor rest := by
  have seen := seesExpression_of_opens spans (opens_binding everywhere bound)
  simpa only [Phrase.Reads, binding, seen, if_true] using
    reads_allow (bound_reads reads everywhere bound spans ends unbound)

/-- An expression with its where clauses, the innermost first. -/
theorem expression_growsTo (reads : below.Reads) : (tree : Tree) → (cursor rest : Cursor) →
    tree.Everywhere Written → tree.isNodeOf NodeKind.isExpression = true →
    cursor.Spans tree.tokens rest → tree.EndsAt 3 rest → rest.sees .equals = false →
    (ascription below).GrowsTo
      (Growth.onlyIf (·.sees .semicolon) .whereClause (sequence [take, binding below])) cursor tree
      rest
  | .leaf token, _, _, _, expression, _, _, _ => by contradiction
  | .node kind row, cursor, rest, everywhere, expression, spans, ends, unbound => by
      rcases (Bool.or_eq_true ..).mp expression with ascribed | isWhere
      · exact .start (ascription_reads reads everywhere ascribed cursor rest spans ends)
      · obtain rfl : kind = .whereClause := eq_of_beq isWhere
        obtain ⟨left, _, binding, rfl, leftExpression, isSemicolon, bound⟩ :=
          exists_of_fills_three everywhere.1.allowed
        obtain ⟨semicolon, rfl, same⟩ := exists_leaf_of_isToken isSemicolon
        obtain ⟨middle, next, before, between, behind⟩ := spans_joined spans
        have seen : middle.sees .semicolon = true := between.sees same
        have unboundLeft : middle.sees .equals = false := by
          simp [Cursor.sees, between.kind?, same]
        have ending : left.EndsAt 3 middle := Tree.endsAt_of_kind? (same ▸ between.kind?)
          (by decide) (simple_child everywhere.1 rfl (by simp))
        have smaller := expression_growsTo reads left cursor middle everywhere.2.1
          (isNodeOf_of_nodeOf leftExpression) before ending unboundLeft
        apply smaller.step (Growth.onlyIf_eq_some_iff.mpr ⟨seen, rfl⟩)
        exact reads_takeThen between (binding_reads reads everywhere.2.2.2.1 bound behind
          (ends.last (simple_child everywhere.1 rfl (by simp))) unbound).only

theorem placed_onlyIf {condition : Cursor → Bool} {kind : NodeKind} {tail : Phrase}
    (placed : ∀ cursor, condition cursor = true →
      Placed cursor (tail cursor).trees (tail cursor).rest) (cursor : Cursor) (larger : Growth)
    (grows : Growth.onlyIf condition kind tail cursor = some larger) :
    Placed cursor (larger.tail cursor).trees (larger.tail cursor).rest := by
  obtain ⟨holds, rfl⟩ := Growth.onlyIf_eq_some_iff.mp grows
  exact placed cursor holds

/-- What grows into a tree is an expression if no where clause follows. -/
theorem reads_expression_of_growsTo (sound : below.Sound)
    (growing : (ascription below).GrowsTo
      (Growth.onlyIf (·.sees .semicolon) .whereClause (sequence [take, binding below])) cursor tree
      rest)
    (ended : rest.sees .semicolon = false) :
    ((ascription below).grown
      (Growth.onlyIf (·.sees .semicolon) .whereClause (sequence [take, binding below]))
        cursor).Reads tree rest := by
  apply growing.reads (clauses_advance sound)
  · apply placed_onlyIf
    intro cursor seen
    exact (yields_takeThen seen (by decide) (binding_yields sound _).only).placed
  · exact growth_onlyIf_eq_none.mpr ended

theorem expression_reads (reads : below.Reads) (everywhere : tree.Everywhere Written)
    (expressed : tree.isNodeOf NodeKind.isExpression = true) :
    (expression below).ReadsAt 1 tree := by
  apply readsAt_settled (tokens_ne_nil everywhere expressed)
  intro cursor rest spans ends
  exact reads_expression_of_growsTo reads.sound
    (expression_growsTo reads tree cursor rest everywhere expressed spans (ends.mono (by decide))
      (ends.sees_eq_false (by decide))) (ends.sees_eq_false (by decide))

/-- Before an equals sign an expression has no where clauses. -/
theorem expression_reads_ascribed (reads : below.Reads) (everywhere : tree.Everywhere Written)
    (ascribed : tree.isNodeOf NodeKind.isAscribed = true) : (expression below).ReadsAt 2 tree := by
  apply readsAt_settled (tokens_ne_nil everywhere (isExpression_of_isAscribed ascribed))
  intro cursor rest spans ends
  exact reads_expression_of_growsTo reads.sound
    (.start (ascription_reads reads everywhere ascribed cursor rest spans (ends.mono (by decide))))
    (ends.sees_eq_false (by decide))

end Grammar

end Scrapscript
