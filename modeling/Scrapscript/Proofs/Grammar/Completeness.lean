import Scrapscript.Proofs.Grammar.Enclosed
import Scrapscript.Proofs.Items

/-!
The grammar is complete: field accesses, applications and operations are read as well, and with them
every level, from the cut-off at the nesting limit upwards, and every item.
-/

namespace Scrapscript

open Scrapscript.Tree (isToken isNodeOf)

namespace TokenKind

theorem grip_of_startsArgument {token : TokenKind} (starts : token.startsArgument = true) :
    token.grip = 24 := by
  cases token <;> first | rfl | contradiction

theorem grip_of_powers? {token : TokenKind} {powers : Nat × Nat}
    (binds : Grammar.powers? token = some powers) : token.grip = 5 + powers.1 := by
  cases token <;> simp only [Grammar.powers?, Option.some.injEq, reduceCtorEq] at binds <;>
    subst binds <;> rfl

/-- No token is between an operand of a power and the power itself. -/
theorem grip_ne (token : TokenKind) : token.grip ≠ 22 := by
  cases token <;> decide

end TokenKind

/-- How tightly a token would have to hold on to an operand to take the last part of it away. -/
def Tree.cohesion (tree : Tree) : Nat :=
  match tree.outerPowers? with
  | some inner => 5 + inner.2
  | none => 24

namespace Grammar

open Scrapscript.Phrase Scrapscript.Rule

variable {below : Level} {cursor rest : Cursor} {tree : Tree}

/-- A field access grows from the atom that it begins with. -/
theorem access_growsTo (reads : below.Reads) : (tree : Tree) → (cursor rest : Cursor) →
    tree.Everywhere Written → tree.isNodeOf NodeKind.isAccess = true →
    cursor.Spans tree.tokens rest →
    (tree.isNodeOf (· == .patternMatch) = true → rest.sees .closeParen = true) →
    (atom below).GrowsTo
      (Growth.onlyIf (·.sees .dot) .fieldAccess (sequence [take, fieldName])) cursor tree rest
  | .leaf token, _, _, _, accessed, _, _ => by contradiction
  | .node kind row, cursor, rest, everywhere, accessed, spans, closed => by
      rcases (Bool.or_eq_true ..).mp accessed with isAtom | isField
      · exact .start (atom_reads reads everywhere isAtom spans closed)
      · obtain rfl : kind = .fieldAccess := eq_of_beq isField
        obtain ⟨left, dot, field, rfl, leftAccess, isDot, isName⟩ :=
          exists_of_fills_joined everywhere.1.allowed
        obtain ⟨token, rfl, ident⟩ := identifier_parts everywhere.2.2.2.1 isName
        obtain ⟨middle, next, before, between, behind⟩ := spans_joined spans
        have simple : left.isNodeOf (· == .patternMatch) = false :=
          simple_child everywhere.1 rfl (by simp)
        have smaller := access_growsTo reads left cursor middle everywhere.2.1 leftAccess before
          (by simp [simple])
        apply smaller.step (Growth.onlyIf_eq_some_iff.mpr ⟨between.sees isDot, rfl⟩)
        exact reads_takeThen between (fieldName_reads behind ident).only

theorem isBinary_of_isApplied (applied : tree.isNodeOf NodeKind.isApplied = true) :
    tree.isNodeOf NodeKind.isBinary = true :=
  Tree.isNodeOf_mono (fun kind level => by simp [NodeKind.isBinary, level]) applied

theorem isApplied_of_isAccess (accessed : tree.isNodeOf NodeKind.isAccess = true) :
    tree.isNodeOf NodeKind.isApplied = true :=
  Tree.isNodeOf_mono (fun kind level => by simp [NodeKind.isApplied, level]) accessed

theorem access_reads (reads : below.Reads) (everywhere : tree.Everywhere Written)
    (accessed : tree.isNodeOf NodeKind.isAccess = true) : (access below).ReadsAt 25 tree := by
  apply readsAt_settled (tokens_ne_nil everywhere
    (isExpression_of_isBinary (isBinary_of_isApplied (isApplied_of_isAccess accessed))))
  intro cursor rest spans ends
  have growing := access_growsTo reads tree cursor rest everywhere accessed spans ends.closed
  apply growing.reads accessing_advances
  · apply placed_onlyIf
    intro cursor seen
    exact (yields_takeThen seen (by decide) (fieldName_yields _).only).placed
  · exact growth_onlyIf_eq_none.mpr (ends.sees_eq_false (by decide))

/-- An argument on the same line follows the function that it is applied to. -/
theorem argument_follows {function argument : Tree}
    (everywhere : (Tree.node .application [function, argument]).Everywhere Written)
    (accessed : argument.isNodeOf NodeKind.isAccess = true)
    (spans : cursor.Spans argument.tokens rest) :
    seesFurther cursor = true ∧ ∃ token, cursor.kind? = some token ∧ token.grip = 24 := by
  have opened := opens_tokens argument everywhere.2.2.1
    (isExpression_of_isBinary (isBinary_of_isApplied (isApplied_of_isAccess accessed)))
  have grouped := everywhere.1.grouped
  cases tokens : argument.tokens with
  | nil => simp [tokens, Token.opens] at opened
  | cons token others =>
      rw [tokens] at spans opened
      simp only [groups, tokens, List.head?_cons, Option.any_some, Bool.and_eq_true,
        bne_iff_ne, ne_eq] at grouped
      have starts : token.kind.startsArgument = true := by
        simpa [Token.opens, grouped.1, grouped.2] using opened
      have next := spans.kind?
      refine ⟨?_, token.kind, next, TokenKind.grip_of_startsArgument starts⟩
      simp [seesFurther, Cursor.seesArgument, next, starts, seesDeclaration, spans.flat]

/-- An application grows from the function that it begins with, one argument at a time. -/
theorem application_growsTo (reads : below.Reads) : (tree : Tree) → (cursor rest : Cursor) →
    tree.Everywhere Written → tree.isNodeOf NodeKind.isApplied = true →
    cursor.Spans tree.tokens rest → tree.EndsAt 25 rest →
    (access below).GrowsTo (Growth.onlyIf seesFurther .application (allow (access below))) cursor
      tree rest
  | .leaf token, _, _, _, applied, _, _ => by contradiction
  | .node kind row, cursor, rest, everywhere, applied, spans, ends => by
      rcases (Bool.or_eq_true ..).mp applied with accessed | isApplication
      · exact .start (access_reads reads everywhere accessed cursor rest spans ends)
      · obtain rfl : kind = .application := eq_of_beq isApplication
        obtain ⟨function, argument, rfl, functionApplied, leveled⟩ :=
          exists_of_fills_two everywhere.1.allowed
        have accessed := isNodeOf_of_nodeOf leveled
        obtain ⟨middle, before, after⟩ := spans_tree spans
        have behind := spans_last after
        obtain ⟨further, token, next, grip⟩ := argument_follows everywhere accessed behind
        have ending : function.EndsAt 25 middle := Tree.endsAt_of_kind? next (by omega)
          (simple_child everywhere.1 rfl (by simp))
        have smaller := application_growsTo reads function cursor middle everywhere.2.1
          (isNodeOf_of_nodeOf functionApplied) before ending
        apply smaller.step (Growth.onlyIf_eq_some_iff.mpr ⟨further, rfl⟩)
        exact reads_allow (access_reads reads everywhere.2.2.1 accessed middle rest behind
          (ends.last (simple_child everywhere.1 rfl (by simp))))

theorem application_reads (reads : below.Reads) (everywhere : tree.Everywhere Written)
    (applied : tree.isNodeOf NodeKind.isApplied = true) : (application below).ReadsAt 24 tree := by
  apply readsAt_settled (tokens_ne_nil everywhere
    (isExpression_of_isBinary (isBinary_of_isApplied applied)))
  intro cursor rest spans ends
  have growing := application_growsTo reads tree cursor rest everywhere applied spans
    (ends.mono (by decide))
  apply growing.reads (arguments_advance reads.sound)
  · apply placed_onlyIf
    intro cursor further
    exact (argument_yields reads.sound ((Bool.and_eq_true ..).mp further).1).placed
  · refine growth_onlyIf_eq_none.mpr (Bool.eq_false_iff.mpr fun further => ?_)
    obtain ⟨token, next, starts⟩ :=
      (Option.any_eq_true ..).mp ((Bool.and_eq_true ..).mp further).1
    have loose := ends.loose token next
    rw [TokenKind.grip_of_startsArgument starts] at loose
    contradiction

theorem exists_powers_of_outerPowers? {inner : Nat × Nat} (outer : tree.outerPowers? = some inner) :
    ∃ operator, powers? operator = some inner := by
  unfold Tree.outerPowers? at outer
  split at outer
  · contradiction
  · split at outer
    · obtain ⟨operator, -, binds⟩ := Option.bind_eq_some_iff.mp outer
      exact ⟨operator, binds⟩
    · contradiction

/-- An operator is the next step of the loop that reads operands. -/
theorem joining_of_kind? {power : Nat} {operator : TokenKind} {powers : Nat × Nat}
    (next : cursor.kind? = some operator) (binds : powers? operator = some powers)
    (tight : power ≤ powers.1) :
    joining below power cursor = some ⟨operationKind operator,
      sequence [enclose .operator take, require (below.binary powers.2) .missingOperand]⟩ := by
  have found : operatorAt? power cursor = some (operator, powers.2) :=
    operatorAt?_eq_some_iff.mpr ⟨next, powers.1, binds, tight⟩
  simp [joining, found]

section

variable {left : Tree} {operator : TokenKind} {powers : Nat × Nat}
  (binds : powers? operator = some powers)
  (nested : ∀ inner, left.outerPowers? = some inner → powers.1 < inner.2)

include binds nested

/-- An operator takes nothing away from its left operand. -/
theorem grip_lt_cohesion : operator.grip < left.cohesion := by
  have bounded := powers?_cases binds
  rw [TokenKind.grip_of_powers? binds, Tree.cohesion]
  split
  · rename_i inner outer
    have looser := nested inner outer
    omega
  · omega

/-- A left operand is tight enough where the operation is. -/
theorem le_of_left {power : Nat} (tight : power ≤ powers.1) (inner : Nat × Nat)
    (outer : left.outerPowers? = some inner) : power ≤ inner.1 := by
  obtain ⟨other, otherBinds⟩ := exists_powers_of_outerPowers? outer
  exact Nat.le_trans tight (left_operand_le binds otherBinds (nested inner outer)).1

end

/-- An operation grows from the operand that it begins with, one operator at a time. -/
theorem binary_growsTo (reads : below.Reads) (power : Nat) : (tree : Tree) →
    (cursor rest : Cursor) → tree.Everywhere Written → tree.isNodeOf NodeKind.isBinary = true →
    (∀ inner, tree.outerPowers? = some inner → power ≤ inner.1) →
    cursor.Spans tree.tokens rest → tree.EndsAt tree.cohesion rest →
    (application below).GrowsTo (joining below power) cursor tree rest
  | .leaf token, _, _, _, binary, _, _, _ => by contradiction
  | .node kind row, cursor, rest, everywhere, binary, tight, spans, ends => by
      rcases (Bool.or_eq_true ..).mp binary with applied | isOperation
      · have none : (Tree.node kind row).outerPowers? = none := outerPowers?_applied applied
        rw [Tree.cohesion, none] at ends
        exact .start (application_reads reads everywhere applied cursor rest spans ends)
      · obtain ⟨left, symbol, right, powers, rfl, binds, rfl, leftBinary, rightBinary, outer, lefts,
          rights⟩ := written_operation everywhere isOperation
        obtain ⟨middle, before, after⟩ := spans_tree spans
        obtain ⟨next, between, last⟩ := spans_tree after
        have between : middle.Spans [symbol] next := between
        have unlike : (operationKind symbol.kind == .parenthesized) = false := by
          unfold operationKind
          split <;> rfl
        have ending : left.EndsAt left.cohesion middle := Tree.endsAt_of_kind? between.kind?
          (grip_lt_cohesion binds lefts) (simple_child everywhere.1 unlike (by simp))
        have smaller := binary_growsTo reads power left cursor middle everywhere.2.1 leftBinary
          (le_of_left binds lefts (tight powers outer)) before ending
        apply smaller.step (joining_of_kind? between.kind? binds (tight powers outer))
        -- What follows the operation is looser than its operator is to its right.
        rw [Tree.cohesion, outer] at ends
        have bounded := powers?_cases binds
        have read := reads.binary right powers.2 (by omega) everywhere.2.2.2.1 rightBinary rights next
          rest (spans_last last) (ends.last (simple_child everywhere.1 unlike (by simp)))
        exact (reads_take between.settled).enclose.followedBy (reads_require read _).only
          ((reads.sound.binary powers.2).required _ _).only.placed

/-- What is loose enough for a loop is loose enough for each operand in it. -/
theorem endsAt_cohesion {power : Nat} (bounded : power ≤ 18)
    (tight : ∀ inner, tree.outerPowers? = some inner → power ≤ inner.1)
    (ends : tree.EndsAt (5 + power) rest) : tree.EndsAt tree.cohesion rest := by
  refine ⟨fun token next => ?_, ends.closed⟩
  have loose := ends.loose token next
  unfold Tree.cohesion
  split
  · rename_i inner outer
    obtain ⟨operator, binds⟩ := exists_powers_of_outerPowers? outer
    have powers := powers?_cases binds
    have le := tight inner outer
    have apart := token.grip_ne
    omega
  · omega

theorem binary_reads (reads : below.Reads) {power : Nat} (bounded : power ≤ 18)
    (everywhere : tree.Everywhere Written) (isBinary : tree.isNodeOf NodeKind.isBinary = true)
    (tight : ∀ inner, tree.outerPowers? = some inner → power ≤ inner.1) :
    (binary below power).ReadsAt (5 + power) tree := by
  apply readsAt_settled (tokens_ne_nil everywhere (isExpression_of_isBinary isBinary))
  intro cursor rest spans ends
  have growing := binary_growsTo reads power tree cursor rest everywhere isBinary tight spans
    (endsAt_cohesion bounded tight ends)
  apply growing.reads (joining_advances reads.sound power)
  · intro cursor larger grows
    exact ((joining_grows reads.sound power).yields cursor larger grows).placed
  · cases found : joining below power rest with
    | none => rfl
    | some larger =>
        obtain ⟨operator, left, right, next, binds, le, -⟩ := joining_eq_some found
        have loose := ends.loose operator next
        rw [TokenKind.grip_of_powers? binds] at loose
        omega

/-- Every level reads what can be written, whatever is left below it. -/
theorem reads_ofDepth (depth : Nat) : (Level.ofDepth depth).Reads := by
  have sound := sound_ofDepth depth
  induction depth with
  | zero =>
      constructor
      case sound => exact sound
      case function =>
        intro tree _ _ cursor rest _ _
        exact reads_cutOff
      case binary =>
        intro tree power _ _ _ _ cursor rest _ _
        exact reads_cutOff
  | succ depth inductionHypothesis =>
      have reads := inductionHypothesis (sound_ofDepth depth)
      constructor
      case sound => exact sound
      case function =>
        intro tree everywhere functional
        exact function_reads reads everywhere functional
      case binary =>
        intro tree power bounded everywhere isBinary tight
        exact binary_reads reads bounded everywhere isBinary tight

/-- What can be written at the top of a document: an expression, or a declaration whose left side
has no where clauses. -/
def isWrittenItem : Tree → Bool
  | .node .declaration row =>
      fills [nodeOf noGap NodeKind.isAscribed, isToken .equals, nodeOf noGap NodeKind.isExpression]
        row
  | tree => tree.isNodeOf NodeKind.isExpression

theorem writtenItem_parts (written : isWrittenItem tree = true) :
    tree.isNodeOf NodeKind.isExpression = true ∨
      ∃ (left : Tree) (symbol : Token) (right : Tree),
        tree = .node .declaration [left, .leaf symbol, right] ∧
        left.isNodeOf NodeKind.isAscribed = true ∧ symbol.kind = .equals ∧
        right.isNodeOf NodeKind.isExpression = true := by
  unfold isWrittenItem at written
  split at written
  · obtain ⟨left, symbol, right, rfl, parts⟩ := exists_of_fills_joined written
    exact .inr ⟨left, symbol, right, rfl, parts⟩
  · exact .inl written

theorem opens_writtenItem (everywhere : tree.Everywhere Written)
    (written : isWrittenItem tree = true) : Token.opens tree.tokens = true := by
  rcases writtenItem_parts written with expressed | ⟨left, symbol, right, rfl, ascribed, -⟩
  · exact opens_tokens tree everywhere expressed
  · exact Token.opens_append
      (opens_tokens left everywhere.2.1 (isExpression_of_isAscribed ascribed)) _

theorem item_reads (everywhere : tree.Everywhere Written) (written : isWrittenItem tree = true) :
    item.ReadsAt 1 tree := by
  have reads : outermost.Reads := reads_ofDepth depthLimit
  have builds := expression_builds reads.sound
  apply readsAt_settled (Token.ne_nil_of_opens (opens_writtenItem everywhere written))
  rcases writtenItem_parts written with
    expressed | ⟨left, symbol, right, rfl, ascribed, equals, expressed⟩
  · exact readsAt_unjoined builds (by decide) (expression_reads reads everywhere expressed)
      (by decide) (by decide)
  · exact readsAt_joined builds (by decide) (expression_reads_ascribed reads everywhere.2.1 ascribed)
      (expression_reads reads everywhere.2.2.2.1 expressed) equals (by decide)
      everywhere.1 rfl

/-- A document of one item is read up to its end. -/
theorem sourceFile_reads (everywhere : tree.Everywhere Written) (written : isWrittenItem tree = true)
    (simple : tree.isNodeOf (· == .patternMatch) = false) (spans : cursor.Spans tree.tokens rest)
    (exhausted : rest.words = []) : sourceFile.Reads [tree] cursor rest.settled := by
  have ends : tree.EndsAt 1 rest :=
    ⟨by simp [Cursor.kind?, exhausted], fun isMatch => by simp [simple] at isMatch⟩
  have seen := seesExpression_of_opens spans (opens_writtenItem everywhere written)
  have first : sourceItem.Reads [tree] cursor rest := by
    simpa only [Phrase.Reads, sourceItem, seen, if_true] using
      reads_allow (item_reads everywhere written cursor rest spans ends)
  have inside : cursor.atEnd = false := seesMore_atEnd (seesMore_of_seesExpression seen)
  have placed (cursor : Cursor) (inside : (!cursor.atEnd) = true) :
      Placed cursor (sourceItem cursor).trees (sourceItem cursor).rest :=
    (sourceItem_yields (by simpa using inside)).placed
  have all : (many (! ·.atEnd) sourceItem).Reads [tree] cursor rest :=
    reads_many_cons sourceItems_advance placed (by simp [inside]) first
      (reads_many_nil sourceItems_advance (by simp [Cursor.atEnd, exhausted]))
  exact all.followedBy reads_blanks.only (placed_blanks _)

end Grammar

end Scrapscript
