import Scrapscript.Proofs.Precedence

/-!
Trees as they can be written down: without trivia and errors, with the children and the grouping
that the grammar asks for, with commas between the items of a collection, and with pattern matches
in parentheses. Such trees are taken apart here, and their first tokens are looked at.
-/

namespace Scrapscript

open Scrapscript.Tree (withoutTrivia isToken isTokenOf isNodeOf)

namespace Grammar

/-- Whether any two neighbours have a comma between them, that is whether one of them is a comma. -/
def commasBetween : List Tree → Bool
  | first :: second :: rest =>
      (first.isToken .comma || second.isToken .comma) && commasBetween (second :: rest)
  | _ => true

/-- Whether the items between the brackets of a collection are separated by commas. -/
def separates (kind : NodeKind) (row : List Tree) : Bool :=
  match kind with
  | .list | .record => commasBetween row.tail.dropLast
  | _ => true

/-- Whether a row has no pattern match, unless it stands in parentheses. -/
def confines (kind : NodeKind) (row : List Tree) : Bool :=
  kind == .parenthesized || !row.any (isNodeOf (· == .patternMatch))

/-- A node as it can be written down. -/
structure Written (kind : NodeKind) (row : List Tree) : Prop where
  proper : kind ≠ .error
  plain : withoutTrivia row = row
  allowed : allows noGap kind row = true
  grouped : groups kind row = true
  separated : separates kind row = true
  confined : confines kind row = true

section

variable {place second third : Tree → Bool} {row : List Tree} {tree : Tree} {kind : NodeKind}
  {level other : NodeKind → Bool} {token : TokenKind}

theorem exists_of_fills_one (filled : fills [place] row = true) :
    ∃ tree, row = [tree] ∧ place tree = true := by
  obtain ⟨tree, rest, rfl, placed, filled⟩ := exists_of_fills_cons filled
  cases rest with
  | nil => exact ⟨tree, rfl, placed⟩
  | cons => simp [fills] at filled

theorem exists_of_fills_two (filled : fills [place, second] row = true) :
    ∃ tree other, row = [tree, other] ∧ place tree = true ∧ second other = true := by
  obtain ⟨tree, rest, rfl, placed, filled⟩ := exists_of_fills_cons filled
  obtain ⟨other, rfl, otherPlaced⟩ := exists_of_fills_one filled
  exact ⟨tree, other, rfl, placed, otherPlaced⟩

theorem exists_of_fills_three (filled : fills [place, second, third] row = true) :
    ∃ tree other last, row = [tree, other, last] ∧ place tree = true ∧ second other = true ∧
      third last = true := by
  obtain ⟨tree, rest, rfl, placed, filled⟩ := exists_of_fills_cons filled
  obtain ⟨other, last, rfl, others⟩ := exists_of_fills_two filled
  exact ⟨tree, other, last, rfl, placed, others⟩

theorem exists_leaf_of_isTokenOf {accepts : TokenKind → Bool}
    (isToken : tree.isTokenOf accepts = true) :
    ∃ leaf : Token, tree = .leaf leaf ∧ accepts leaf.kind = true := by
  cases tree with
  | leaf leaf => exact ⟨leaf, rfl, isToken⟩
  | node => simp [isTokenOf] at isToken

theorem exists_leaf_of_isToken (isToken : tree.isToken token = true) :
    ∃ leaf : Token, tree = .leaf leaf ∧ leaf.kind = token := by
  obtain ⟨leaf, rfl, same⟩ := exists_leaf_of_isTokenOf isToken
  exact ⟨leaf, rfl, eq_of_beq same⟩

theorem isNodeOf_of_nodeOf (placed : nodeOf noGap level tree = true) :
    tree.isNodeOf level = true := by
  simpa [nodeOf] using placed

/-- Two nodes with a token between them. -/
theorem exists_of_fills_joined
    (filled : fills [nodeOf noGap level, isToken token, nodeOf noGap other] row = true) :
    ∃ (left : Tree) (symbol : Token) (right : Tree), row = [left, .leaf symbol, right] ∧
      left.isNodeOf level = true ∧ symbol.kind = token ∧ right.isNodeOf other = true := by
  obtain ⟨left, middle, right, rfl, leveled, isToken, rightLeveled⟩ := exists_of_fills_three filled
  obtain ⟨symbol, rfl, same⟩ := exists_leaf_of_isToken isToken
  exact ⟨left, symbol, right, rfl, isNodeOf_of_nodeOf leveled, same, isNodeOf_of_nodeOf rightLeveled⟩

/-- The children of a node that is not in parentheses are not pattern matches. -/
theorem simple_child (written : Written kind row)
    (unlike : (kind == .parenthesized) = false) (child : tree ∈ row) :
    tree.isNodeOf (· == .patternMatch) = false := by
  have confined := written.confined
  simp only [confines, unlike, Bool.false_or, Bool.not_eq_true',
    List.any_eq_false] at confined
  exact Bool.eq_false_iff.mpr (confined tree child)

end

end Grammar

namespace Token

/-- Whether a run of tokens begins an expression: a minus sign does so only before a number. -/
def opens : List Token → Bool
  | [] => false
  | token :: rest =>
      token.kind.startsArgument || token.kind == .pipe
        || (token.kind == .minus && rest.head?.any (·.kind.isNumber))

theorem ne_nil_of_opens {tokens : List Token} (opened : opens tokens = true) : tokens ≠ [] := by
  rintro rfl
  contradiction

theorem opens_append {tokens : List Token} (opened : opens tokens = true) (more : List Token) :
    opens (tokens ++ more) = true := by
  cases tokens with
  | nil => contradiction
  | cons token rest =>
      cases rest with
      | nil =>
          simp only [opens, List.head?_nil, Option.any_none, Bool.and_false, Bool.or_false] at opened
          simp [opens, opened]
      | cons second rest => simpa [opens] using opened

end Token

namespace Grammar

/-- What is not an atom begins with a smaller expression. -/
theorem exists_first_expression {kind : NodeKind} {row : List Tree} (written : Written kind row)
    (expression : kind.isExpression = true) (compound : kind.isAtom = false) :
    ∃ first rest, row = first :: rest ∧ first.isNodeOf NodeKind.isExpression = true := by
  have leading {level : NodeKind → Bool} {places : List (Tree → Bool)}
      (filled : fills (nodeOf noGap level :: places) row = true)
      (included : ∀ kind, level kind = true → kind.isExpression = true) :
      ∃ first rest, row = first :: rest ∧ first.isNodeOf NodeKind.isExpression = true := by
    obtain ⟨first, rest, rfl, leveled, -⟩ := exists_of_fills_cons filled
    exact ⟨first, rest, rfl, Tree.isNodeOf_mono included (isNodeOf_of_nodeOf leveled)⟩
  have allowed := written.allowed
  cases kind
  case whereClause | ascription | function | pipeline | operation | application | fieldAccess =>
    refine leading allowed fun kind level => ?_
    simp_all [NodeKind.isExpression, NodeKind.isAscribed, NodeKind.isFunctional, NodeKind.isBinary,
      NodeKind.isApplied]
  all_goals contradiction

theorem startsArgument_of_isNumber {token : TokenKind} (number : token.isNumber = true) :
    token.startsArgument = true := by
  cases token <;> first | rfl | contradiction

theorem startsArgument_of_isBytes {token : TokenKind}
    (bytes : (token == .bytes || token == .byte) = true) : token.startsArgument = true := by
  cases token <;> first | rfl | contradiction

theorem opens_leaf {kind : NodeKind} {leaf : Token} (starts : leaf.kind.startsArgument = true)
    (rest : List Tree) : Token.opens (Tree.node kind (.leaf leaf :: rest)).tokens = true := by
  simp [Tree.tokens, Tree.tokensOf, Token.opens, starts]

/-- The parts of a pattern case: bar, pattern, a guard or none, arrow and body. -/
theorem patternCase_parts {row : List Tree} (written : Written .patternCase row) :
    ∃ (bar : Token) (pattern : Tree) (guards : List Tree) (arrow : Token) (body : Tree),
      row = .leaf bar :: pattern :: (guards ++ [.leaf arrow, body]) ∧ bar.kind = .pipe ∧
      pattern.isNodeOf NodeKind.isBinary = true ∧ arrow.kind = .arrow ∧
      body.isNodeOf NodeKind.isFunctional = true ∧
      (guards = [] ∨ ∃ guard, guards = [guard] ∧ guard.isNodeOf (· == .guard) = true) := by
  have allowed := written.allowed
  simp only [allows, caseEnds, List.any_cons, List.any_nil, Bool.or_false, Bool.or_eq_true,
    List.cons_append, List.nil_append] at allowed
  have leading {places : List (Tree → Bool)}
      (filled : fills (isToken .pipe :: nodeOf noGap NodeKind.isBinary :: places) row = true) :
      ∃ (bar : Token) (pattern : Tree) (rest : List Tree), row = .leaf bar :: pattern :: rest ∧
        bar.kind = .pipe ∧ pattern.isNodeOf NodeKind.isBinary = true ∧ fills places rest = true := by
    obtain ⟨first, later, rfl, isToken, others⟩ := exists_of_fills_cons filled
    obtain ⟨bar, rfl, isBar⟩ := exists_leaf_of_isToken isToken
    obtain ⟨pattern, rest, rfl, leveled, ending⟩ := exists_of_fills_cons others
    exact ⟨bar, pattern, rest, rfl, isBar, isNodeOf_of_nodeOf leveled, ending⟩
  rcases allowed with (unguarded | guarded) | (gap | guardedGap)
  · obtain ⟨bar, pattern, rest, rfl, isBar, leveled, filled⟩ := leading unguarded
    obtain ⟨second, body, rfl, isArrow, functional⟩ := exists_of_fills_two filled
    obtain ⟨arrow, rfl, same⟩ := exists_leaf_of_isToken isArrow
    exact ⟨bar, pattern, [], arrow, body, rfl, isBar, leveled, same, isNodeOf_of_nodeOf functional,
      .inl rfl⟩
  · obtain ⟨bar, pattern, rest, rfl, isBar, leveled, filled⟩ := leading guarded
    obtain ⟨guard, second, body, rfl, isGuard, isArrow, functional⟩ := exists_of_fills_three filled
    obtain ⟨arrow, rfl, same⟩ := exists_leaf_of_isToken isArrow
    exact ⟨bar, pattern, [guard], arrow, body, rfl, isBar, leveled, same,
      isNodeOf_of_nodeOf functional, .inr ⟨guard, rfl, isGuard⟩⟩
  · obtain ⟨_, _, _, -, -, -, filled⟩ := leading gap
    obtain ⟨_, -, wrong⟩ := exists_of_fills_one filled
    contradiction
  · obtain ⟨_, _, _, -, -, -, filled⟩ := leading guardedGap
    obtain ⟨_, _, -, -, wrong⟩ := exists_of_fills_two filled
    contradiction

theorem opens_patternMatch {row : List Tree}
    (everywhere : (Tree.node .patternMatch row).Everywhere Written) :
    Token.opens (Tree.node .patternMatch row).tokens = true := by
  have allowed := everywhere.1.allowed
  cases row with
  | nil => simp [allows] at allowed
  | cons first rest =>
      simp only [allows, List.isEmpty_cons, List.all_cons, Bool.not_false, Bool.true_and,
        Bool.and_eq_true] at allowed
      cases first with
      | leaf token => simp [isNodeOf] at allowed
      | node kind children =>
          obtain rfl : kind = .patternCase := eq_of_beq allowed.1
          obtain ⟨bar, pattern, guards, arrow, body, rfl, isBar, -⟩ :=
            patternCase_parts everywhere.2.1.1
          simp [Tree.tokens, Tree.tokensOf, Token.opens, isBar]

/-- An atom begins with a token that begins expressions. -/
theorem opens_atom {kind : NodeKind} {row : List Tree}
    (everywhere : (Tree.node kind row).Everywhere Written) (atom : kind.isAtom = true) :
    Token.opens (Tree.node kind row).tokens = true := by
  have leading {token : TokenKind} {places : List (Tree → Bool)}
      (filled : fills (isToken token :: places) row = true) (starts : token.startsArgument = true) :
      Token.opens (Tree.node kind row).tokens = true := by
    obtain ⟨first, rest, rfl, isToken, -⟩ := exists_of_fills_cons filled
    obtain ⟨leaf, rfl, rfl⟩ := exists_leaf_of_isToken isToken
    exact opens_leaf starts rest
  have opening {token : TokenKind} {item closer : Tree → Bool}
      (collected : collects (isToken token) item closer row = true)
      (starts : token.startsArgument = true) :
      Token.opens (Tree.node kind row).tokens = true := by
    cases row with
    | nil => simp [collects] at collected
    | cons first rest =>
        simp only [collects, Bool.and_eq_true] at collected
        obtain ⟨leaf, rfl, rfl⟩ := exists_leaf_of_isToken collected.1.1
        exact opens_leaf starts rest
  have allowed := everywhere.1.allowed
  cases kind
  case identifier | placeholder | text | hole | tag | parenthesized => exact leading allowed rfl
  case list | record => exact opening allowed rfl
  case bytes =>
    obtain ⟨tree, rfl, isToken⟩ := exists_of_fills_one allowed
    obtain ⟨leaf, rfl, accepted⟩ := exists_leaf_of_isTokenOf isToken
    exact opens_leaf (startsArgument_of_isBytes accepted) []
  case number =>
    simp only [allows, Bool.or_eq_true] at allowed
    rcases allowed with single | signed
    · obtain ⟨tree, rfl, isToken⟩ := exists_of_fills_one single
      obtain ⟨leaf, rfl, number⟩ := exists_leaf_of_isTokenOf isToken
      exact opens_leaf (startsArgument_of_isNumber number) []
    · obtain ⟨tree, other, rfl, minus, isToken⟩ := exists_of_fills_two signed
      obtain ⟨sign, rfl, isMinus⟩ := exists_leaf_of_isToken minus
      obtain ⟨leaf, rfl, number⟩ := exists_leaf_of_isTokenOf isToken
      simp [Tree.tokens, Tree.tokensOf, Token.opens, isMinus, number]
  case patternMatch => exact opens_patternMatch everywhere
  all_goals contradiction

/-- An expression begins with a token that begins expressions. -/
theorem opens_tokens : (tree : Tree) → tree.Everywhere Written →
    tree.isNodeOf NodeKind.isExpression = true → Token.opens tree.tokens = true
  | .leaf token, _, expression => by simp [isNodeOf] at expression
  | .node kind [], everywhere, expression => by
      cases atom : kind.isAtom with
      | true => exact opens_atom everywhere atom
      | false =>
          obtain ⟨_, _, none, -⟩ := exists_first_expression everywhere.1 expression atom
          contradiction
  | .node kind (first :: rest), everywhere, expression => by
      cases atom : kind.isAtom with
      | true => exact opens_atom everywhere atom
      | false =>
          obtain ⟨_, _, same, smaller⟩ := exists_first_expression everywhere.1 expression atom
          obtain ⟨rfl, rfl⟩ := List.cons.inj same
          exact Token.opens_append (opens_tokens first everywhere.2.1 smaller) _

/-- The token of an operator's node. -/
theorem exists_symbol {tree : Tree} {operator : TokenKind} (everywhere : tree.Everywhere Written)
    (named : tree.operator? = some operator) :
    ∃ symbol : Token, tree = .node .operator [.leaf symbol] ∧ symbol.kind = operator := by
  unfold Tree.operator? at named
  split at named
  · obtain ⟨child, rfl, isToken⟩ := exists_of_fills_one everywhere.1.allowed
    obtain ⟨symbol, rfl, isOperator⟩ := exists_leaf_of_isTokenOf isToken
    have significant : symbol.isTrivia = false := by
      unfold Token.isTrivia
      cases kind : symbol.kind <;> first | rfl | simp [kind, TokenKind.isBinaryOperator] at isOperator
    simp only [Tree.significantTokens, significant, Bool.false_eq_true, if_false, List.head?_cons,
      Option.map_some, Option.some.injEq] at named
    exact ⟨symbol, rfl, named⟩
  · contradiction

/-- The parts of an operation. -/
theorem written_operation {kind : NodeKind} {row : List Tree}
    (everywhere : (Tree.node kind row).Everywhere Written) (isOperation : kind.isOperation = true) :
    ∃ (left : Tree) (symbol : Token) (right : Tree) (powers : Nat × Nat),
      row = [left, .node .operator [.leaf symbol], right] ∧ powers? symbol.kind = some powers ∧
      operationKind symbol.kind = kind ∧ left.isNodeOf NodeKind.isBinary = true ∧
      right.isNodeOf NodeKind.isBinary = true ∧
      (Tree.node kind row).outerPowers? = some powers ∧
      (∀ inner, left.outerPowers? = some inner → powers.1 < inner.2) ∧
      (∀ inner, right.outerPowers? = some inner → powers.2 ≤ inner.1) := by
  obtain ⟨-, plain, allowed, grouped, -, -⟩ := everywhere.1
  have filled : ∃ symbols : Tree → Bool,
      fills [nodeOf noGap NodeKind.isBinary, symbols, nodeOf noGap NodeKind.isBinary] row = true ∧
        ∀ tree operator, tree.operator? = some operator → symbols tree = true →
          operationKind operator = kind := by
    cases kind <;> first | contradiction | refine ⟨_, allowed, ?_⟩
    all_goals
      intro tree operator named fits
      simp_all [operationKind]
  obtain ⟨symbols, filled, kinds⟩ := filled
  obtain ⟨left, middle, right, rfl, leftBinary, fits, rightBinary⟩ := exists_of_fills_three filled
  rw [← plain] at allowed grouped
  obtain ⟨_, _, _, operator, powers, parts, named, binds, outermost, lefts, rights⟩ :=
    operation_parts isOperation allowed grouped
  rw [plain] at parts
  obtain ⟨rfl, rfl, rfl⟩ : left = _ ∧ middle = _ ∧ right = _ := by simpa using parts
  obtain ⟨symbol, rfl, rfl⟩ := exists_symbol everywhere.2.2.1 named
  exact ⟨left, symbol, right, powers, rfl, binds, kinds _ _ named fits,
    isNodeOf_of_nodeOf leftBinary, isNodeOf_of_nodeOf rightBinary, outermost, lefts, rights⟩

section

variable {tree : Tree}

theorem identifier_parts (everywhere : tree.Everywhere Written)
    (identifier : tree.isNodeOf (· == .identifier) = true) :
    ∃ token : Token, tree = .node .identifier [.leaf token] ∧ token.kind = .ident := by
  cases tree with
  | leaf token => contradiction
  | node kind row =>
      obtain rfl : kind = .identifier := eq_of_beq identifier
      obtain ⟨child, rfl, isToken⟩ := exists_of_fills_one everywhere.1.allowed
      obtain ⟨token, rfl, same⟩ := exists_leaf_of_isToken isToken
      exact ⟨token, rfl, same⟩

/-- A binding is an ascription, or a declaration whose two sides are ascriptions. -/
theorem binding_parts (everywhere : tree.Everywhere Written) (bound : isBinding noGap tree = true) :
    tree.isNodeOf NodeKind.isAscribed = true ∨
      ∃ (left : Tree) (symbol : Token) (right : Tree),
        tree = .node .declaration [left, .leaf symbol, right] ∧
        left.isNodeOf NodeKind.isAscribed = true ∧ symbol.kind = .equals ∧
        right.isNodeOf NodeKind.isAscribed = true := by
  unfold isBinding at bound
  split at bound
  · rw [everywhere.1.plain] at bound
    obtain ⟨left, symbol, right, rfl, parts⟩ := exists_of_fills_joined bound
    exact .inr ⟨left, symbol, right, rfl, parts⟩
  · exact .inl (isNodeOf_of_nodeOf bound)

end

/-- The parts of a collection: opener, items and closer. -/
theorem collection_parts {opener closer : TokenKind} {level : NodeKind → Bool} {row : List Tree}
    (collected : collects (isToken opener) (orComma (nodeOf noGap level))
      (orGap noGap (isToken closer)) row = true) :
    ∃ (opening : Token) (items : List Tree) (closing : Token),
      row = .leaf opening :: (items ++ [.leaf closing]) ∧ opening.kind = opener ∧
      closing.kind = closer ∧
      ∀ tree ∈ items, tree.isToken .comma = true ∨ tree.isNodeOf level = true := by
  cases row with
  | nil => contradiction
  | cons first others =>
      simp only [collects, Bool.and_eq_true, Option.any_eq_true] at collected
      obtain ⟨⟨opens, all⟩, last, final, closes⟩ := collected
      obtain ⟨items, rfl⟩ := List.getLast?_eq_some_iff.mp final
      obtain ⟨opening, rfl, isOpener⟩ := exists_leaf_of_isToken opens
      obtain ⟨closing, rfl, isCloser⟩ := exists_leaf_of_isToken (by simpa [orGap] using closes)
      refine ⟨opening, items, closing, rfl, isOpener, isCloser, fun tree listed => ?_⟩
      rw [List.dropLast_concat, List.all_eq_true] at all
      simpa [orComma, nodeOf] using all tree listed

/-- Each tree of a row fills one of the places. -/
theorem exists_place {places : List (Tree → Bool)} {row : List Tree} {tree : Tree}
    (filled : fills places row = true) (listed : tree ∈ row) :
    ∃ place ∈ places, place tree = true := by
  induction places generalizing row with
  | nil =>
      cases row with
      | nil => contradiction
      | cons => simp [fills] at filled
  | cons place places inductionHypothesis =>
      obtain ⟨first, rest, rfl, placed, filled⟩ := exists_of_fills_cons filled
      rcases List.mem_cons.mp listed with rfl | later
      · exact ⟨place, .head _, placed⟩
      · obtain ⟨other, among, otherPlaced⟩ := inductionHypothesis filled later
        exact ⟨other, .tail _ among, otherPlaced⟩

/-- Each place is filled by one of the trees of the row. -/
theorem exists_filler {places : List (Tree → Bool)} {row : List Tree} {place : Tree → Bool}
    (filled : fills places row = true) (listed : place ∈ places) :
    ∃ tree ∈ row, place tree = true := by
  induction places generalizing row with
  | nil => contradiction
  | cons first places inductionHypothesis =>
      obtain ⟨tree, rest, rfl, placed, filled⟩ := exists_of_fills_cons filled
      rcases List.mem_cons.mp listed with rfl | later
      · exact ⟨tree, .head _, placed⟩
      · obtain ⟨other, among, otherPlaced⟩ := inductionHypothesis filled later
        exact ⟨other, .tail _ among, otherPlaced⟩

/-- Malformed tokens stand in error nodes only. -/
theorem proper_of_written {kind : NodeKind} {row : List Tree} (written : Written kind row)
    (token : Token) (listed : .leaf token ∈ row) : token.kind ≠ .error := by
  intro error
  have allowed := written.allowed
  have place {places : List (Tree → Bool)} (filled : fills places row = true) :
      ∃ place ∈ places, place (.leaf token) = true := exists_place filled listed
  cases kind
  case error => exact written.proper rfl
  case list | record =>
    obtain ⟨opening, items, closing, rfl, opener, closer, all⟩ := collection_parts allowed
    simp only [List.mem_cons, List.mem_append, List.not_mem_nil, or_false] at listed
    rcases listed with first | item | last
    · cases first
      simp [opener] at error
    · simpa [isToken, isTokenOf, isNodeOf, error] using all _ item
    · cases last
      simp [closer] at error
  case sourceFile =>
    have placed := List.all_eq_true.mp allowed _ listed
    simp [nodeOf, isNodeOf] at placed
  case patternMatch =>
    have placed := List.all_eq_true.mp ((Bool.and_eq_true ..).mp allowed).2 _ listed
    simp [isNodeOf] at placed
  case number | recordField | spread =>
    rcases (Bool.or_eq_true ..).mp allowed with short | long
    · simpa [isToken, isTokenOf, isNodeOf, error, TokenKind.isNumber] using place short
    · simpa [isToken, isTokenOf, isNodeOf, nodeOf, error, TokenKind.isNumber] using place long
  case patternCase =>
    simp only [allows, caseEnds, List.any_cons, List.any_nil, Bool.or_false, Bool.or_eq_true,
      List.cons_append, List.nil_append] at allowed
    rcases allowed with (plain | guarded) | (plain | guarded)
    · simpa [isToken, isTokenOf, isNodeOf, nodeOf, error] using place plain
    · simpa [isToken, isTokenOf, isNodeOf, nodeOf, error] using place guarded
    · simpa [isToken, isTokenOf, isNodeOf, nodeOf, error] using place plain
    · simpa [isToken, isTokenOf, isNodeOf, nodeOf, error] using place guarded
  all_goals
    simpa [isToken, isTokenOf, isNodeOf, nodeOf, orGap, isBinding, Tree.operator?, error,
      TokenKind.isBinaryOperator] using place allowed

end Grammar

end Scrapscript
