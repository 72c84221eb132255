import Mathlib.Data.Nat.Digits.Defs
import Scrapscript.Proofs.Grammar.Unbroken
import Scrapscript.Proofs.Sign
import Scrapscript.Proofs.Tokenization
import Scrapscript.Tree.Number

/-!
The values of whole numbers. A number is made of its digits, with or without a sign before them;
blanks in between are no part of its literal. The value is that of the digits in the decimal system,
unless it needs more than 64 bits.
-/

namespace Scrapscript

open Scrapscript.Tree (withoutTrivia isToken significantTokens)

namespace NumberValue

/-- The number that digits stand for in the decimal system, the last of them in the place of the
ones. -/
def decimal (digits : Text) : Nat :=
  Nat.ofDigits 10 (digits.reverse.map fun digit => digit.toNat - '0'.toNat)

theorem ofDigits_eq_decimal (digits : Text) : ofDigits digits = decimal digits := by
  induction digits using List.reverseRecOn with
  | nil => rfl
  | append_singleton digits last inductionHypothesis =>
      have read : ofDigits (digits ++ [last]) =
          ofDigits digits * 10 + (last.toNat - '0'.toNat) := by
        simp [ofDigits]
      have placed : decimal (digits ++ [last]) =
          (last.toNat - '0'.toNat) + 10 * decimal digits := by
        simp [decimal, Nat.ofDigits_cons]
      rw [read, placed, inductionHypothesis]
      omega

theorem integer?_eq (negative : Bool) (digits : Text) :
    integer? negative digits =
      let value : Int := if negative then -decimal digits else decimal digits
      if -9223372036854775808 ≤ value ∧ value ≤ 9223372036854775807 then some (integer value)
      else none := by
  simp only [integer?, fits, ofDigits_eq_decimal, Bool.and_eq_true, decide_eq_true_eq]

end NumberValue

namespace Lexer

theorem digits_of_int {text : Text} {token : Token} (listed : token ∈ tokenize text)
    (int : token.kind = .int) :
    ∃ first rest, token.text = first :: rest ∧ ∀ digit ∈ token.text, isDigit digit = true := by
  obtain ⟨before, after, read⟩ := List.append_of_mem listed
  have best := bestMatch_of_tokenize (tokenize_textOf_suffix read)
  obtain ⟨first, rest, spelled⟩ := List.exists_cons_of_ne_nil best.nonempty
  have member := best.belongs (by simp [int])
  rw [int, spelled] at member
  obtain ⟨digit, others⟩ := TokenKind.cons_mem_oneOrMore.mp member
  refine ⟨first, rest, spelled, ?_⟩
  rw [spelled]
  exact List.forall_mem_cons.mpr ⟨digit, others⟩

theorem text_of_minus {text : Text} {token : Token} (listed : token ∈ tokenize text)
    (minus : token.kind = .minus) : token.text = ['-'] := by
  obtain ⟨before, after, read⟩ := List.append_of_mem listed
  have best := bestMatch_of_tokenize (tokenize_textOf_suffix read)
  have member : token.text ∈ TokenKind.language .minus := minus ▸ best.belongs (by simp [minus])
  have spelled : (TokenKind.minus, token.text) ∈ TokenKind.symbols := member
  simpa [TokenKind.symbols] using spelled

end Lexer

namespace Node

variable {text : Text} {node : Node} {leaf : Leaf}

theorem mem_withoutTrivia_of_childLeaf (child : leaf ∈ node.childLeaves)
    (significant : leaf.isTrivia = false) : .leaf leaf.token ∈ withoutTrivia node.children := by
  have listed : Tree.leaf leaf.token ∈ node.childLeaves.map (Tree.leaf ·.token) :=
    List.mem_map.mpr ⟨leaf, child, rfl⟩
  rw [map_childLeaves] at listed
  have kept : (!(Tree.leaf leaf.token).isTrivia) = true := by
    simpa [Tree.isTrivia, Leaf.isTrivia] using significant
  exact List.mem_filter.mpr ⟨List.mem_of_mem_filter listed, kept⟩

theorem mem_tokenize_of_childLeaf (visited : node ∈ (Parse.ofText text).root.descendants)
    {token : Token} (child : .leaf token ∈ node.children) : token ∈ Lexer.tokenize text := by
  obtain ⟨before, after, tokens, -⟩ := within_of_descendant visited
  rw [Parse.tokens_root] at tokens
  rw [tokens]
  simp [tree, Tree.tokens, Tree.mem_tokensOf_of_leaf child]

/-- A whole number is written with digits only, of which there are some. -/
theorem digits_of_int (visited : node ∈ (Parse.ofText text).root.descendants)
    (child : leaf ∈ node.childLeaves) (int : leaf.kind = .int) :
    ∃ first rest, leaf.text = first :: rest ∧ ∀ digit ∈ leaf.text, Lexer.isDigit digit = true := by
  have listed := mem_withoutTrivia_of_childLeaf child (Leaf.isTrivia_of_kind int rfl)
  exact Lexer.digits_of_int (mem_tokenize_of_childLeaf visited (List.mem_of_mem_filter listed)) int

/-- The pieces of a number with whole digits: these alone, or a minus sign and these. -/
theorem pieces_of_int (visited : node ∈ (Parse.ofText text).root.descendants)
    (number : node.kind = .number) (child : leaf ∈ node.childLeaves) (int : leaf.kind = .int) :
    withoutTrivia node.children = [.leaf leaf.token] ∨
      ∃ minus : Token, withoutTrivia node.children = [.leaf minus, .leaf leaf.token] ∧
        minus.kind = .minus := by
  have unbroken := holds_of_descendant (Parse.unbroken_root text) visited number
  have clean : (Tree.node node.kind node.children).hasError = false := by
    simp [Tree.hasError, number, unbroken]
  obtain ⟨allowed, -⟩ := holds_of_descendant (Parse.grouped_root text) visited clean
  have listed := mem_withoutTrivia_of_childLeaf child (Leaf.isTrivia_of_kind int rfl)
  rw [number, Grammar.allows, Bool.or_eq_true] at allowed
  rcases allowed with plain | signed
  · obtain ⟨digits, row, -⟩ := Grammar.exists_of_fills_one plain
    rw [row, List.mem_singleton] at listed
    exact .inl (by rw [row, listed])
  · obtain ⟨sign, digits, row, isMinus, -⟩ := Grammar.exists_of_fills_two signed
    obtain ⟨minus, rfl, same⟩ := Grammar.exists_leaf_of_isToken isMinus
    rw [row, List.mem_pair, Tree.leaf.injEq] at listed
    rcases listed with rfl | rfl
    · rw [show leaf.token.kind = .int from int] at same
      contradiction
    · exact .inr ⟨minus, row, same⟩

theorem any_childLeaves {kind : TokenKind} (visible : kind.isTrivia = false) :
    node.childLeaves.any (·.kind == kind) = (withoutTrivia node.children).any (isToken kind) := by
  rw [Tree.any_isToken_withoutTrivia visible, ← isSome_tokenOf?, tokenOf?, List.isSome_find?]

/-- White space and comments between the sign and the digits are no part of the literal. -/
theorem literal_of_int (visited : node ∈ (Parse.ofText text).root.descendants)
    (number : node.kind = .number) (child : leaf ∈ node.childLeaves) (int : leaf.kind = .int) :
    node.isFloat = false ∧
      node.literal =
        if node.childLeaves.any (·.kind == .minus) then '-' :: leaf.text else leaf.text := by
  have intToken : leaf.token.kind = .int := int
  rw [isFloat, literal, any_childLeaves rfl, any_childLeaves rfl,
    ← Tree.significantTokens_withoutTrivia]
  rcases pieces_of_int visited number child int with row | ⟨minus, row, isMinus⟩
  · simp [row, isToken, Tree.isTokenOf, intToken, significantTokens, Token.isTrivia,
      TokenKind.isTrivia, Token.textOf, Leaf.text]
  · have listed : Tree.leaf minus ∈ withoutTrivia node.children := by simp [row]
    have sign := Lexer.text_of_minus
      (mem_tokenize_of_childLeaf visited (List.mem_of_mem_filter listed)) isMinus
    simp [row, isToken, Tree.isTokenOf, intToken, isMinus, significantTokens, Token.isTrivia,
      TokenKind.isTrivia, Token.textOf, Leaf.text, sign]

/-- The value of a whole number is that of its digits, with its sign. -/
theorem numberValue?_of_int (visited : node ∈ (Parse.ofText text).root.descendants)
    (number : node.kind = .number) (child : leaf ∈ node.childLeaves) (int : leaf.kind = .int) :
    node.numberValue? =
      NumberValue.integer? (node.childLeaves.any (·.kind == .minus)) leaf.text := by
  obtain ⟨whole, literal⟩ := literal_of_int visited number child int
  obtain ⟨first, rest, spelled, digits⟩ := digits_of_int visited child int
  have unsigned : first ≠ '-' := by
    rintro rfl
    have digit := digits '-' (by simp [spelled])
    contradiction
  cases negative : node.childLeaves.any (·.kind == .minus) with
  | true => simp [numberValue?, whole, literal, negative, Text.withoutFirst]
  | false =>
      have positive : (first == '-') = false := beq_eq_false_iff_ne.mpr unsigned
      simp [numberValue?, whole, literal, negative, spelled, unsigned, positive, Text.withoutFirst]

end Node

namespace Parse

/-- The value of a whole number is that of its digits with their sign, if it fits in 64 bits. In a
document without errors a minus sign is an operator right after an operand, and otherwise the sign
of a number. -/
theorem wholeNumbers (text : Text) :
    (∀ node ∈ (ofText text).root.descendants, node.kind = .number →
      ∀ leaf ∈ node.childLeaves, leaf.kind = .int →
        (∀ digit ∈ leaf.text, Lexer.isDigit digit = true) ∧
        node.numberValue? =
          let size : Int := NumberValue.decimal leaf.text
          let value := if node.childLeaves.any (·.kind == .minus) then -size else size
          if -2 ^ 63 ≤ value ∧ value ≤ 2 ^ 63 - 1 then some (.integer value) else none) ∧
    ((ofText text).root.hasError = false →
      ∀ earlier leaf later, (ofText text).root.leaves = earlier ++ leaf :: later →
        leaf.kind = .minus →
        leaf.parent?.map Node.kind =
          some (if (earlier.filter (! ·.isTrivia)).getLast?.any (·.kind.endsOperand)
            then .operator else .number)) := by
  constructor
  · intro node visited number leaf child int
    constructor
    · obtain ⟨_, _, -, digits⟩ := Node.digits_of_int visited child int
      exact digits
    · rw [Node.numberValue?_of_int visited number child int, NumberValue.integer?_eq]
      rfl
  · intro clean earlier leaf later split minus
    exact parent_of_minus clean split minus

/-- The least number, with a line break and a zero before its digits, from which a variable is
taken. -/
theorem wholeNumbers_least :
    ∃ text, (ofText text).root.hasError = false ∧
      (∃ node ∈ (ofText text).root.descendants, node.kind = .number ∧
        node.numberValue? = some (.integer (-9223372036854775808))) ∧
      ∃ earlier leaf later, (ofText text).root.leaves = earlier ++ leaf :: later ∧
        leaf.kind = .minus ∧ leaf.parent?.map Node.kind = some .operator := by
  let text : Text :=
    ['-', '\n', '0', '9', '2', '2', '3', '3', '7', '2', '0', '3', '6', '8', '5', '4', '7', '7', '5',
      '8', '0', '8', ' ', '-', 'x']
  obtain ⟨values, parents⟩ := wholeNumbers text
  have clean : (ofText text).root.hasError = false := by decide +kernel
  refine ⟨text, clean, ?_, ?_⟩
  · have found : ∃ node ∈ (ofText text).root.descendants, node.kind = .number ∧
        node.childLeaves.any (·.kind == .minus) = true ∧
        ∃ leaf ∈ node.childLeaves, leaf.kind = .int ∧
          NumberValue.decimal leaf.text = 9223372036854775808 := by
      decide +kernel
    obtain ⟨node, visited, number, negative, leaf, child, int, size⟩ := found
    refine ⟨node, visited, number, ?_⟩
    rw [(values node visited number leaf child int).2, negative, size]
    rfl
  · have split : (ofText text).root.leaves = (ofText text).root.leaves.take 4 ++
        (ofText text).root.leaves.drop 4 := (List.take_append_drop 4 _).symm
    have after : ((ofText text).root.leaves.drop 4).head?.any (·.kind == .minus) = true := by
      decide +kernel
    obtain ⟨leaf, first, minus⟩ := Option.any_eq_true _ _ |>.mp after
    obtain ⟨later, rest⟩ := List.head?_eq_some_iff.mp first
    rw [rest] at split
    refine ⟨_, leaf, later, split, eq_of_beq minus, ?_⟩
    rw [parents clean _ leaf later split (eq_of_beq minus)]
    have operand : (((ofText text).root.leaves.take 4).filter (! ·.isTrivia)).getLast?.any
        (·.kind.endsOperand) = true := by
      decide +kernel
    rw [operand]
    rfl

end Parse

end Scrapscript
