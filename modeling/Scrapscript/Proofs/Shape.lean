import Scrapscript.Proofs.Grammar.Written

/-!
The shape of a tree: in a parse that was not cut off, every node has the children that the grammar
allows, error nodes standing for what is missing, and what is built around a node begins with it.
Whether a parse was cut off or not, white space and comments are inside of nodes, not at their ends.
-/

namespace Scrapscript

open Scrapscript.Tree (withoutTrivia isError isToken isTokenOf isNodeOf)

/-- A node with the children that the grammar allows. -/
def Allowed (kind : NodeKind) (children : List Tree) : Prop :=
  Grammar.allows isError kind (withoutTrivia children) = true

theorem Placed.allowed {cursor rest : Cursor} {trees : List Tree}
    (placed : Placed cursor trees rest) (shallow : rest.tooDeep = false) :
    Tree.EverywhereIn Allowed trees := by
  apply placed.everywhere_of_shallow shallow
  · exact rfl
  · intro word
    simp [Allowed, Grammar.allows, Grammar.fills, Tree.isTokenOf]
  · intro cursor rest kind children begun settled inside formed
    exact formed.allowed

namespace Grammar

/-- Whether a tree is out of place among the children of a node: a name outside of an identifier, a
dot outside of a field access, a document inside of anything, or a declaration that is neither at
the top nor in a where clause. -/
def isMisplaced (kind : NodeKind) : Tree → Bool
  | .leaf token =>
      token.kind == .ident && kind != .identifier && kind != .error
        || token.kind == .dot && kind != .fieldAccess && kind != .error
  | .node child _ =>
      child == .sourceFile || child == .declaration && kind != .sourceFile && kind != .whereClause

/-- The places that take no misplaced tree. -/
def Keeps (kind : NodeKind) (place : Tree → Bool) : Prop :=
  ∀ tree, place tree = true → isMisplaced kind tree = false

section

variable {kind : NodeKind} {place other : Tree → Bool} {level : NodeKind → Bool}
  {accepts : TokenKind → Bool} {places : List (Tree → Bool)} {row : List Tree}

theorem keeps_node (documents : level .sourceFile = false)
    (declarations : (level .declaration && kind != .sourceFile && kind != .whereClause) = false) :
    Keeps kind (isNodeOf level) := by
  intro tree leveled
  cases tree with
  | leaf => contradiction
  | node child children =>
      have leveled : level child = true := leveled
      by_cases document : child = .sourceFile
      · rw [document, documents] at leveled
        contradiction
      · by_cases declaration : child = .declaration
        · rw [← declaration, leveled] at declarations
          simpa [isMisplaced, document, declaration] using declarations
        · simp [isMisplaced, document, declaration]

theorem keeps_token (names : (accepts .ident && kind != .identifier && kind != .error) = false)
    (dots : (accepts .dot && kind != .fieldAccess && kind != .error) = false) :
    Keeps kind (isTokenOf accepts) := by
  intro tree accepted
  cases tree with
  | node => contradiction
  | leaf token =>
      have accepted : accepts token.kind = true := accepted
      by_cases ident : token.kind = .ident
      · rw [← ident, accepted] at names
        simpa [isMisplaced, ident] using names
      · by_cases dot : token.kind = .dot
        · rw [← dot, accepted] at dots
          simpa [isMisplaced, dot] using dots
        · simp [isMisplaced, ident, dot]

theorem Keeps.or (first : Keeps kind place) (second : Keeps kind other) :
    Keeps kind fun tree => place tree || other tree := by
  intro tree either
  rcases (Bool.or_eq_true ..).mp either with placed | placed
  · exact first tree placed
  · exact second tree placed

theorem keeps_gap : Keeps kind isError :=
  keeps_node rfl (by simp)

theorem keeps_nodeOf (documents : level .sourceFile = false)
    (declarations : (level .declaration && kind != .sourceFile && kind != .whereClause) = false) :
    Keeps kind (nodeOf isError level) :=
  (keeps_node documents declarations).or keeps_gap

theorem keeps_closer
    (names : (accepts .ident && kind != .identifier && kind != .error) = false)
    (dots : (accepts .dot && kind != .fieldAccess && kind != .error) = false) :
    Keeps kind (orGap isError (isTokenOf accepts)) :=
  (keeps_token names dots).or keeps_gap

theorem keeps_fills (keep : ∀ place ∈ places, Keeps kind place) (filled : fills places row = true) :
    ∀ tree ∈ row, isMisplaced kind tree = false := by
  intro tree listed
  obtain ⟨place, among, placed⟩ := exists_place filled listed
  exact keep place among tree placed

end

theorem keeps_operator {accepts : TokenKind → Bool} {kind : NodeKind} :
    Keeps kind fun tree => tree.operator?.any accepts := by
  intro tree found
  cases operator : tree.operator? with
  | none => simp [operator] at found
  | some =>
      unfold Tree.operator? at operator
      split at operator
      · rfl
      · contradiction

theorem keeps_binding : Keeps .whereClause (isBinding isError) := by
  intro tree bound
  unfold isBinding at bound
  split at bound
  · rfl
  · exact keeps_nodeOf rfl rfl tree bound

theorem keeps_collects {kind : NodeKind} {opener item closer : Tree → Bool} {row : List Tree}
    (first : Keeps kind opener) (middle : Keeps kind item) (last : Keeps kind closer)
    (collected : collects opener item closer row = true) :
    ∀ tree ∈ row, isMisplaced kind tree = false := by
  cases row with
  | nil => contradiction
  | cons tree others =>
      simp only [collects, Bool.and_eq_true, Option.any_eq_true] at collected
      obtain ⟨⟨opens, all⟩, final, ends, closes⟩ := collected
      obtain ⟨items, rfl⟩ := List.getLast?_eq_some_iff.mp ends
      rw [List.dropLast_concat, List.all_eq_true] at all
      simp only [List.mem_cons, List.mem_append, List.not_mem_nil, or_false]
      rintro tree (rfl | listed | rfl)
      · exact first tree opens
      · exact middle tree (all tree listed)
      · exact last tree closes

/-- No place of the table takes a tree that is misplaced. -/
theorem isMisplaced_eq_false {kind : NodeKind} {row : List Tree}
    (allowed : allows isError kind row = true) :
    ∀ tree ∈ row, isMisplaced kind tree = false := by
  cases kind
  case sourceFile =>
    intro tree listed
    exact keeps_nodeOf rfl rfl tree (List.all_eq_true.mp allowed tree listed)
  case patternMatch =>
    intro tree listed
    have patternCase := List.all_eq_true.mp ((Bool.and_eq_true ..).mp allowed).2 tree listed
    exact keeps_node rfl rfl tree patternCase
  case list | record =>
    exact keeps_collects (keeps_token rfl rfl) ((keeps_token rfl rfl).or (keeps_nodeOf rfl rfl))
      (keeps_closer rfl rfl) allowed
  case number | recordField | spread =>
    rcases (Bool.or_eq_true ..).mp allowed with short | long
    · refine keeps_fills ?_ short
      simp (disch := decide) [isToken, keeps_node, keeps_token]
    · refine keeps_fills ?_ long
      simp (disch := decide) [isToken, keeps_node, keeps_nodeOf, keeps_token]
  case patternCase =>
    simp only [allows, caseEnds, List.any_cons, List.any_nil, Bool.or_false, Bool.or_eq_true,
      List.cons_append, List.nil_append] at allowed
    rcases allowed with (filled | filled) | (filled | filled)
    all_goals
      refine keeps_fills ?_ filled
      simp (disch := decide) [isToken, keeps_node, keeps_nodeOf, keeps_token, keeps_gap]
  case error =>
    rcases (Bool.or_eq_true ..).mp allowed with empty | filled
    · simp [List.isEmpty_iff.mp empty]
    · refine keeps_fills ?_ filled
      simp (disch := decide) [keeps_token]
  all_goals
    refine keeps_fills ?_ allowed
    simp (disch := decide) [isToken, keeps_nodeOf, keeps_token, keeps_closer, keeps_operator,
      keeps_binding]

end Grammar

/-- A compound that begins with the node that it is built around. -/
def Led (kind : NodeKind) (children : List Tree) : Prop :=
  kind.isCompound = true →
    ∃ first rest, children = first :: rest ∧ first.isNode = true ∧ isError first = false

/-- A node that begins with a significant token. -/
def Begun (kind : NodeKind) (children : List Tree) : Prop :=
  kind ≠ .sourceFile → ∀ token ∈ (Tree.tokensOf children).head?, token.isTrivia = false

/-- What holds of every node below the root: white space and comments neither begin it nor, in the
case of a node that the grammar knows, end its row of children. -/
structure Tight (kind : NodeKind) (children : List Tree) : Prop where
  begun : ∀ token ∈ (Tree.tokensOf children).head?, token.isTrivia = false
  ended : kind ≠ .error → Tree.Ended children

/-- Where a row begins with a significant token, no white space or comments come before its first
piece. -/
theorem Tree.exists_eq_cons {children row : List Tree} {first : Tree}
    (significant : ∀ token ∈ (tokensOf children).head?, token.isTrivia = false)
    (split : withoutTrivia children = first :: row) : ∃ later, children = first :: later := by
  cases children with
  | nil => contradiction
  | cons tree later =>
      have kept : tree.isTrivia = false := by
        cases tree with
        | node => rfl
        | leaf token => exact significant token rfl
      rw [withoutTrivia, List.filter_cons_of_pos (by simp [kept])] at split
      exact ⟨later, by rw [(List.cons.inj split).1]⟩

theorem Grammar.exists_first_node {kind : NodeKind} {row : List Tree}
    (compound : kind.isCompound = true) (allowed : allows isError kind row = true) :
    ∃ first rest, row = first :: rest ∧ first.isNode = true := by
  have leading {level : NodeKind → Bool} {places : List (Tree → Bool)}
      (filled : fills (nodeOf isError level :: places) row = true) :
      ∃ first rest, row = first :: rest ∧ first.isNode = true := by
    obtain ⟨first, rest, rfl, placed, -⟩ := exists_of_fills_cons filled
    refine ⟨first, rest, rfl, ?_⟩
    rcases (Bool.or_eq_true ..).mp placed with leveled | gap
    · exact Tree.isNode_of_isNodeOf leveled
    · exact Tree.isNode_of_isNodeOf gap
  cases kind <;> first | contradiction | exact leading allowed

namespace Placed

variable {cursor rest : Cursor} {children : List Tree}

/-- A node starts at a word, not at the blanks before it. -/
theorem significant_head (begun : cursor.words ≠ []) (settled : cursor.blanks = .empty)
    (inside : Placed cursor children rest) :
    ∀ token ∈ (Tree.tokensOf children).head?, token.isTrivia = false := by
  obtain ⟨word, more, next⟩ := List.exists_cons_of_ne_nil begun
  have tokens := inside.tokens
  rw [← Cursor.remaining_advanced next, settled] at tokens
  intro token first
  obtain ⟨others, spelled⟩ := List.head?_eq_some_iff.mp first
  rw [spelled, List.cons_append] at tokens
  rw [(List.cons.inj tokens).1]
  exact word.significant

/-- What the nesting limit cuts off begins at a word as well. -/
theorem significant_head_cut {tokens : List Token} {last : Blanks}
    (all : tokens ++ last.tokens = cursor.settled.remaining) :
    ∀ token ∈ tokens.head?, token.isTrivia = false := by
  intro token first
  obtain ⟨others, rfl⟩ := List.head?_eq_some_iff.mp first
  cases next : cursor.words with
  | nil => simp [Cursor.remaining, next] at all
  | cons word more =>
      simp only [Cursor.remaining, Cursor.settled_blanks, Cursor.empty_tokens, Cursor.settled_words,
        next, List.flatMap_cons, List.nil_append, List.cons_append, List.cons.injEq] at all
      rw [all.1]
      exact word.significant

theorem tight {trees : List Tree} (placed : Placed cursor trees rest) :
    Tree.EverywhereIn Tight trees := by
  induction placed with
  | nothing cursor => trivial
  | blanks cursor => exact Tree.everywhereIn_leaves _
  | word next proper =>
      exact (Tree.everywhereIn_append _ _).mpr ⟨Tree.everywhereIn_leaves _, trivial, trivial⟩
  | node begun settled proper inside ended formed inductionHypothesis =>
      exact ⟨⟨⟨inside.significant_head begun settled, fun _ => ended⟩, inductionHypothesis⟩,
        trivial⟩
  | missing cursor fault => exact ⟨⟨⟨nofun, nofun⟩, trivial⟩, trivial⟩
  | @rejected cursor word more fault next =>
      have itself : Tight .error [.leaf word.token] := by
        refine ⟨?_, nofun⟩
        rintro _ ⟨⟩
        exact word.significant
      exact (Tree.everywhereIn_append _ _).mpr
        ⟨Tree.everywhereIn_leaves _, ⟨itself, trivial, trivial⟩, trivial⟩
  | @cut cursor tokens last start all =>
      have itself : Tight .error (Tree.leaves tokens) :=
        ⟨by simpa using significant_head_cut all, nofun⟩
      exact (Tree.everywhereIn_append _ _).mpr
        ⟨Tree.everywhereIn_leaves _, ⟨itself, Tree.everywhereIn_leaves _⟩, trivial⟩
  | append before after inductionBefore inductionAfter =>
      exact (Tree.everywhereIn_append _ _).mpr ⟨inductionBefore, inductionAfter⟩

theorem led {kind : NodeKind} (begun : cursor.words ≠ []) (settled : cursor.blanks = .empty)
    (inside : Placed cursor children rest) (formed : Formed kind (withoutTrivia children)) :
    Led kind children := by
  intro compound
  obtain ⟨first, row, split, isNode⟩ := Grammar.exists_first_node compound formed.allowed
  obtain ⟨later, whole⟩ := Tree.exists_eq_cons (inside.significant_head begun settled) split
  exact ⟨first, later, whole, isNode, formed.led compound first (by rw [split]; rfl)⟩

end Placed

namespace Parse

/-- Every compound of a parse that was not cut off begins with the node that it is built around. -/
theorem led_root {text : Text} (shallow : (ofText text).tooDeep = false) :
    (ofText text).root.tree.Everywhere Led := by
  obtain ⟨rest, placed, -, -, tooDeep, -⟩ := ofTokens_placed (Lexer.tokenize text)
  refine ⟨nofun, placed.everywhere_of_shallow (tooDeep ▸ shallow) nofun (fun _ => nofun) ?_⟩
  intro cursor rest kind children begun settled inside formed
  exact inside.led begun settled formed

theorem tight_of_inner {text : Text} {node : Node}
    (visited : node ∈ (ofText text).root.descendants) (inner : node ≠ (ofText text).root) :
    node.tree.Everywhere Tight := by
  obtain ⟨rest, placed, -⟩ := ofTokens_placed (Lexer.tokenize text)
  have below : node ∈ (Place.preorderOf .sourceFile 0 [] [] 0 (ofText text).items).filterMap
      Place.node? := by
    simp only [Node.descendants, Node.walk, root, Node.root, Node.tree, Place.preorder,
      List.filterMap_cons, Place.node?, List.mem_cons] at visited
    exact visited.resolve_left inner
  exact Place.everywhere_preorderOf _ _ _ _ _ node _ placed.tight below

/-- Every node of a parse begins with a significant token, the document excepted. -/
theorem begun_root (text : Text) : (ofText text).root.tree.Everywhere Begun := by
  apply Node.everywhere_of_forall
  intro node visited below
  have inner : node ≠ (ofText text).root := by
    rintro rfl
    exact below rfl
  exact (tight_of_inner visited inner).1.begun

/-- Without its white space and comments, every node of a parse that was not cut off has children
that the grammar allows for its kind. -/
theorem allows_children {text : Text} (shallow : (ofText text).tooDeep = false) :
    ∀ node ∈ (ofText text).root.descendants,
      Grammar.allows isError node.kind (withoutTrivia node.children) = true := by
  obtain ⟨rest, placed, -, -, tooDeep, allowed⟩ := ofTokens_placed (Lexer.tokenize text)
  have shallow : rest.tooDeep = false := tooDeep ▸ shallow
  have everywhere : (ofText text).root.tree.Everywhere Allowed :=
    ⟨allowed shallow, placed.allowed shallow⟩
  intro node visited
  exact Node.holds_of_descendant everywhere visited

/-- A list without its closing bracket, at the access whose field name is missing. -/
theorem allows_children_unclosed :
    (ofText ['[', '1', ',', ' ', 'a', '.']).tooDeep = false ∧
      ∃ node ∈ (ofText ['[', '1', ',', ' ', 'a', '.']).root.descendants,
        node.kind = .fieldAccess ∧
          Grammar.allows isError node.kind (withoutTrivia node.children) = true := by
  have shallow : (ofText ['[', '1', ',', ' ', 'a', '.']).tooDeep = false := by decide +kernel
  have found : (ofText ['[', '1', ',', ' ', 'a', '.']).root.descendants.any
      (·.kind == .fieldAccess) = true := by
    decide +kernel
  obtain ⟨node, visited, access⟩ := List.any_eq_true.mp found
  exact ⟨shallow, node, visited, eq_of_beq access, allows_children shallow node visited⟩

end Parse

end Scrapscript
