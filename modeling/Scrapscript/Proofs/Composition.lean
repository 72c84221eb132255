import Scrapscript.Outline
import Scrapscript.Proofs.ErrorNodes
import Scrapscript.Proofs.Grammar.Words
import Scrapscript.Proofs.Items
import Scrapscript.Proofs.Token.Separation

/-!
Declarations on lines of their own. Texts that are one declaration each can be put below each other:
the document has these declarations and no others, and its outline is that of its parts.
-/

namespace Scrapscript

open Scrapscript.Tree (leaves hasErrorIn)

namespace Word

/-- The words of tokens that go on with others on a later line. -/
theorem group_continued {tokens later joined : List Token}
    (continued : Lexer.Continued tokens later joined) (begun : (group tokens).2 ≠ []) :
    ∃ blanks : Blanks, blanks.tokens.any Token.breaksLine = true ∧
      ∀ splice : Splice, splice.blanks = blanks → splice.others = (group later).2 →
        (group joined).2 = splice.onto (group tokens).2 := by
  obtain ⟨kept, last, space, rfl, trivia, blank, breaks, rfl⟩ := continued
  induction kept with
  | nil => exact absurd (group_append_trivia trivia rfl) begun
  | cons token kept inductionHypothesis =>
      cases significant : token.isTrivia with
      | true =>
          simp only [List.cons_append, group_blank significant] at begun ⊢
          exact inductionHypothesis begun
      | false =>
          simp only [List.cons_append, group_word significant]
          by_cases ended : (group (kept ++ last)).2 = []
          · -- The token is the last word, and the line break comes right after it.
            have gap : ∀ token ∈ kept ++ [space], token.isTrivia = true := by
              have before := isTrivia_of_group_eq_nil ended
              intro token listed
              rcases List.mem_append.mp listed with earlier | here
              · exact before token (List.mem_append_left _ earlier)
              · rwa [List.mem_singleton.mp here]
            obtain ⟨between, words⟩ := group_trivia gap later
            rw [List.append_assoc, List.singleton_append] at between words
            rw [words, ended]
            refine ⟨(group (kept ++ space :: later)).1, ?_, ?_⟩
            · simp [between, breaks]
            · intro splice blanks others
              simp only [Splice.onto, blanks, others]
          · obtain ⟨blanks, breaks, joins⟩ := inductionHypothesis ended
            have inside : (group kept).2 ≠ [] := mt (group_append_trivia trivia) ended
            refine ⟨blanks, breaks, fun splice same others => ?_⟩
            rw [joins splice same others, group_append_fst inside, group_append_fst inside]
            obtain ⟨second, front, words⟩ := List.exists_cons_of_ne_nil ended
            simp only [words, Splice.onto]

theorem declares_of_kinds {words : List Word}
    (begins : [.ident, .equals] <+: (words.map Word.token).map Token.kind) : Declares words := by
  obtain ⟨more, kinds⟩ := begins
  cases words with
  | nil => contradiction
  | cons first words =>
      cases words with
      | nil => simp at kinds
      | cons second words =>
          simp only [List.cons_append, List.map_cons, List.cons.injEq] at kinds
          exact ⟨by simp [kinds.1], by simp [kinds.2.1]⟩

theorem Declares.ne_nil {words : List Word} (declares : Declares words) : words ≠ [] := by
  intro none
  simp [none, Declares] at declares

theorem Declares.onto {words : List Word} (declares : Declares words) (splice : Splice) :
    Declares (splice.onto words) := by
  match words with
  | [] => exact absurd rfl declares.ne_nil
  | [last] => simp [Declares] at declares
  | first :: second :: front =>
      obtain ⟨after, same, -⟩ := splice.onto_cons second front
      simpa [Declares, Splice.onto, same] using declares

end Word

/-- Some words can be kept with nothing after them. -/
theorem Splice.exists_onto_self {words : List Word} (begun : words ≠ []) :
    ∃ splice : Splice, splice.tail = [] ∧ splice.others = [] ∧ splice.onto words = words := by
  induction words with
  | nil => contradiction
  | cons first front inductionHypothesis =>
      cases front with
      | nil => exact ⟨⟨[], first.after, [], .inl rfl⟩, rfl, rfl, rfl⟩
      | cons second front =>
          obtain ⟨splice, tail, others, same⟩ := inductionHypothesis (by simp)
          exact ⟨splice, tail, others, by rw [onto, same]⟩

namespace Tree

variable {α : Type} (pick : NodeKind → List Tree → Option α)

mutual

/-- What is picked from the nodes of a tree, each node before its children. -/
def picks : Tree → List α
  | leaf _ => []
  | node kind children => (pick kind children).toList ++ picksIn children

def picksIn : List Tree → List α
  | [] => []
  | first :: rest => first.picks ++ picksIn rest

end

theorem picksIn_eq (row : List Tree) : picksIn pick row = (row.filter isNode).flatMap (picks pick) := by
  induction row with
  | nil => rfl
  | cons first rest inductionHypothesis =>
      cases first with
      | leaf token => simp [picksIn, picks, isNode, inductionHypothesis]
      | node kind children => simp [picksIn, List.filter_cons, isNode, inductionHypothesis]

end Tree

namespace Place

variable {α : Type} (pick : NodeKind → List Tree → Option α)

mutual

theorem filterMap_preorder (above : List Frame) (start : Nat) : (tree : Tree) →
    ((preorder above start tree).filterMap node?).filterMap (fun node => pick node.kind node.children) =
      tree.picks pick
  | .leaf token => by simp [preorder, node?, Tree.picks]
  | .node kind children => by
      have below := filterMap_preorderOf kind start above [] start children
      cases picked : pick kind children <;>
        simpa [preorder, node?, Tree.picks, picked, List.filterMap_cons] using below

theorem filterMap_preorderOf (kind : NodeKind) (origin : Nat) (above : List Frame)
    (before : List Tree) (start : Nat) : (row : List Tree) →
    ((preorderOf kind origin above before start row).filterMap node?).filterMap
        (fun node => pick node.kind node.children) =
      Tree.picksIn pick row
  | [] => rfl
  | first :: rest => by
      simp only [preorderOf, List.filterMap_append, Tree.picksIn, filterMap_preorder,
        filterMap_preorderOf]

end

end Place

namespace Parse

/-- The names in the outline of a text. -/
def outlineNames (text : Text) : List String :=
  (Document.outline ⟨text, ofText text, .ofText text⟩).map Symbol.name

/-- A text that is one declaration of a name and has no errors. -/
structure DeclaresName (text : Text) : Prop where
  clean : (ofText text).errors = []
  single : ∃ declaration, (ofText text).root.childNodes = [declaration] ∧
    declaration.kind = .declaration ∧
    [.ident, .equals] <+: (declaration.tree.tokens.filter (! ·.isTrivia)).map Token.kind

theorem declaresName_iff (text : Text) :
    DeclaresName text ↔
      (ofText text).errors = [] ∧ (ofText text).root.childNodes.length = 1 ∧
        ∀ node ∈ (ofText text).root.childNodes, node.kind = .declaration ∧
          [.ident, .equals] <+: (node.tree.tokens.filter (! ·.isTrivia)).map Token.kind := by
  constructor
  · intro declares
    obtain ⟨declaration, single, kind, begins⟩ := declares.single
    simp [declares.clean, single, kind, begins]
  · intro checked
    obtain ⟨clean, one, declarations⟩ := checked
    obtain ⟨declaration, single⟩ := List.length_eq_one_iff.mp one
    exact ⟨clean, declaration, single, declarations declaration (by simp [single])⟩

instance (text : Text) : Decidable (DeclaresName text) :=
  decidable_of_iff _ (declaresName_iff text).symm

/-- Texts on lines of their own. -/
def lines (parts : List Text) : Text :=
  ['\n'].intercalate parts

/-- The name that a node declares, in the outline's words. -/
def declaredName? (kind : NodeKind) (children : List Tree) : Option String :=
  if kind = .declaration then Symbol.firstPatternName? children else none

theorem firstPatternName?_eq (children : List Tree) :
    Symbol.firstPatternName? children =
      (children.filter Tree.isNode).head?.map Symbol.patternName := by
  induction children with
  | nil => rfl
  | cons first rest inductionHypothesis =>
      cases node : first.isNode <;> simp [Symbol.firstPatternName?, node, inductionHypothesis]

theorem name_ofDeclaration? (document : Document) (declaration : Node) :
    (Symbol.ofDeclaration? document declaration).map Symbol.name =
      Symbol.firstPatternName? declaration.children := by
  rw [firstPatternName?_eq, ← Node.map_childNodes, List.head?_map, Option.map_map]
  unfold Symbol.ofDeclaration? Node.firstNode?
  cases declaration.childNodes.head? <;> rfl

theorem outlineNames_eq (text : Text) :
    outlineNames text =
      ((ofText text).root.childNodes.map Node.tree).flatMap (Tree.picks declaredName?) := by
  have named (node : Node) :
      (if node.kind == .declaration then
          (Symbol.ofDeclaration? ⟨text, ofText text, .ofText text⟩ node).map Symbol.name else none) =
        declaredName? node.kind node.children := by
    simp [declaredName?, name_ofDeclaration?]
  calc
    outlineNames text =
        (ofText text).root.descendants.filterMap
          (fun node => declaredName? node.kind node.children) := by
      rw [outlineNames, Document.outline, List.map_filterMap, Document.root, Node.ofKind,
        List.filterMap_filter]
      simp only [named]
    _ = Tree.picks declaredName? (ofText text).root.tree :=
      Place.filterMap_preorder declaredName? [] 0 (ofText text).root.tree
    _ = Tree.picksIn declaredName? (ofText text).root.children := rfl
    _ = ((ofText text).root.childNodes.map Node.tree).flatMap (Tree.picks declaredName?) := by
      rw [Tree.picksIn_eq, Node.map_childNodes]

theorem hasErrorIn_items {text : Text} (clean : (ofText text).errors = []) :
    Tree.hasErrorIn (ofText text).items = false := by
  have sound := (mt (hasError_root text).mp) (not_not_intro clean)
  simpa [Node.hasError, Node.tree, root, Node.root, Tree.hasError] using sound

theorem shallow_of_clean {text : Text} (clean : (ofText text).errors = []) :
    (ofText text).tooDeep = false := by
  obtain ⟨rest, placed, -, -, tooDeep, -⟩ := ofTokens_placed (Lexer.tokenize text)
  apply Bool.eq_false_iff.mpr
  intro deep
  have error := (placed.hasError_of_tooDeep rfl (tooDeep ▸ deep)).1
  have sound := hasErrorIn_items clean
  rw [ofText, error] at sound
  contradiction

/-- A text without errors has no error tokens. -/
theorem kind_ne_error {text : Text} (clean : (ofText text).errors = []) :
    ∀ token ∈ Lexer.tokenize text, token.kind ≠ .error := by
  intro token listed error
  have leaves := congrArg (List.map Prod.fst) (ofText text).root.located_leaves
  rw [Token.map_fst_located, tokens_root, List.map_map] at leaves
  rw [← leaves] at listed
  obtain ⟨leaf, visited, rfl⟩ := List.mem_map.mp listed
  obtain ⟨parent, inside, -⟩ := errorNode_of_errorToken text visited error
  have counted := length_errors text
  rw [clean, List.length_nil] at counted
  exact List.ne_nil_of_mem inside (List.length_eq_zero_iff.mp counted.symm)

namespace DeclaresName

variable {text : Text} (declares : DeclaresName text)

include declares

/-- The one item of the text, and what is left after it. -/
theorem found :
    ∃ node rest, Grammar.item (.ofTokens (Lexer.tokenize text)) = .found node rest ∧
      rest.words = [] ∧ node.hasError = false ∧
      (ofText text).root.childNodes.map Node.tree = [node] ∧
      [.ident, .equals] <+: (node.tokens.filter (! ·.isTrivia)).map Token.kind := by
  obtain ⟨declaration, single, -, begins⟩ := declares.single
  have nodes : (ofText text).root.childNodes.map Node.tree = [declaration.tree] := by
    rw [single]
    rfl
  have items := nodes
  rw [Node.map_childNodes] at items
  obtain ⟨rest, found, exhausted, clean⟩ :=
    Grammar.found_of_single (hasErrorIn_items declares.clean) items
  exact ⟨declaration.tree, rest, found, exhausted, clean, nodes, begins⟩

theorem words_declare : Word.Declares (Word.group (Lexer.tokenize text)).2 := by
  obtain ⟨node, rest, found, exhausted, -, -, begins⟩ := declares.found
  have meets := Grammar.item_builds (.ofTokens (Lexer.tokenize text))
  rw [found] at meets
  have tokens := congrArg (List.filter (! ·.isTrivia)) meets.2.2.2.1.tokens
  rw [List.filter_append, Cursor.filter_remaining, Cursor.filter_remaining, exhausted] at tokens
  have spelled : node.tokens.filter (! ·.isTrivia) =
      (Word.group (Lexer.tokenize text)).2.map Word.token := by
    simpa [Tree.tokensOf, Cursor.ofTokens] using tokens
  rw [spelled] at begins
  exact Word.declares_of_kinds begins

end DeclaresName

/-- Wherever some words are left and nothing is wrong, they are read as certain items. -/
def ReadAs (words : List Word) (items : List Tree) : Prop :=
  ∀ cursor : Cursor, cursor.words = words → cursor.errors = [] → cursor.tooDeep = false →
    ∃ placement, Phrase.Repeated (! ·.atEnd) Grammar.sourceItem cursor placement ∧
      placement.trees.filter Tree.isNode = items ∧ placement.rest.errors = [] ∧
      placement.rest.tooDeep = false

theorem readAs_nil : ReadAs [] [] :=
  fun cursor words errors shallow =>
    ⟨⟨[], cursor⟩, Grammar.items_of_exhausted words, rfl, errors, shallow⟩

/-- A declaration is read before whatever its words are kept in front of. -/
theorem DeclaresName.readAs_onto {text : Text} (declares : DeclaresName text) {splice : Splice}
    (tail : splice.tail = []) {items : List Tree} (later : ReadAs splice.others items) :
    ReadAs (splice.onto (Word.group (Lexer.tokenize text)).2)
      ((ofText text).root.childNodes.map Node.tree ++ items) := by
  intro other words errors shallow
  obtain ⟨node, rest, found, exhausted, clean, single, -⟩ := declares.found
  have begun := declares.words_declare.ne_nil
  have tracks : splice.Tracks (Word.group (Lexer.tokenize text)).2
      (Cursor.ofTokens (Lexer.tokenize text)).settled other.settled :=
    ⟨by rw [tail, List.append_nil]; rfl, words, fun _ => rfl, fun none => absurd none begun, errors,
      shallow⟩
  have kept : rest.words = [] ++ splice.tail := by rw [tail, exhausted]; rfl
  obtain ⟨otherRest, otherFound, otherTracks⟩ :=
    Grammar.item_follows.found tracks found clean kept fun _ => rfl
  obtain ⟨placement, others, nodes, lastErrors, lastShallow⟩ :=
    later otherRest otherTracks.others otherTracks.errors otherTracks.shallow
  refine ⟨_, Grammar.items_of_found otherFound others, ?_, lastErrors, lastShallow⟩
  have isNode : node.isNode = true := by
    have meets := Grammar.item_builds (.ofTokens (Lexer.tokenize text))
    rw [found] at meets
    exact meets.2.2.1
  simp [Grammar.nodes_leaves, isNode, nodes, single]

/-- Declarations on lines of their own are read one after the other. -/
theorem readAs_lines {parts : List Text} (some : parts ≠ [])
    (declares : ∀ part ∈ parts, DeclaresName part) :
    Word.Declares (Word.group (Lexer.tokenize (lines parts))).2 ∧
      ReadAs (Word.group (Lexer.tokenize (lines parts))).2
        (parts.flatMap fun part => (ofText part).root.childNodes.map Node.tree) := by
  induction parts with
  | nil => contradiction
  | cons part parts inductionHypothesis =>
      have first := declares part (.head _)
      have begun := first.words_declare.ne_nil
      cases parts with
      | nil =>
          obtain ⟨splice, tail, others, same⟩ := Splice.exists_onto_self begun
          have read := first.readAs_onto tail (others ▸ readAs_nil)
          rw [same] at read
          exact ⟨by simpa [lines] using first.words_declare, by simpa [lines] using read⟩
      | cons second parts =>
          have split : lines (part :: second :: parts) = part ++ '\n' :: lines (second :: parts) :=
            rfl
          obtain ⟨lowerDeclares, lowerRead⟩ :=
            inductionHypothesis (by simp) fun text listed => declares text (.tail _ listed)
          have continued := Lexer.tokenize_lines (lines (second :: parts)) (kind_ne_error first.clean)
          obtain ⟨blanks, breaks, joins⟩ := Word.group_continued continued begun
          obtain ⟨spaces, trivia, lower⟩ := Lexer.tokenize_blanks (lines (second :: parts))
          rw [lower, (Word.group_trivia trivia _).2] at lowerDeclares lowerRead
          have joined := joins ⟨[], blanks, _, .inr ⟨lowerDeclares, breaks⟩⟩ rfl rfl
          rw [split, joined]
          exact ⟨first.words_declare.onto _, first.readAs_onto rfl lowerRead⟩

/-- Declarations of names on lines of their own make up a document with these declarations and no
errors, and its outline has their names. -/
theorem childNodes_lines {parts : List Text} (some : parts ≠ [])
    (declares : ∀ part ∈ parts, DeclaresName part) :
    (ofText (lines parts)).errors = [] ∧ (ofText (lines parts)).tooDeep = false ∧
      (ofText (lines parts)).root.childNodes.map Node.tree =
        parts.flatMap (fun part => (ofText part).root.childNodes.map Node.tree) ∧
      outlineNames (lines parts) = parts.flatMap outlineNames := by
  obtain ⟨placement, items, nodes, errors, shallow⟩ :=
    (readAs_lines some declares).2 (.ofTokens (Lexer.tokenize (lines parts))) rfl rfl rfl
  have parsed := Grammar.sourceFile_eq items
  have children : (ofText (lines parts)).root.childNodes.map Node.tree =
      parts.flatMap (fun part => (ofText part).root.childNodes.map Node.tree) := by
    rw [Node.map_childNodes, ← nodes]
    simp [root, Node.root, ofText, ofTokens, parsed, Grammar.nodes_leaves]
  refine ⟨?_, ?_, children, ?_⟩
  · simp [ofText, ofTokens, parsed, errors]
  · simp [ofText, ofTokens, parsed, shallow]
  · rw [outlineNames_eq, children, List.flatMap_assoc]
    simp only [← outlineNames_eq]

/-- An application with a comment after it, and on the next lines a function with a where clause. -/
theorem childNodes_lines_two :
    DeclaresName ['a', '=', 'f', ' ', 'b', '-', '-', '!'] ∧
      DeclaresName ['\n', 'c', '=', 'd', '-', '>', 'e', ';', 'e', '=', '1', ' '] ∧
      (ofText (lines [['a', '=', 'f', ' ', 'b', '-', '-', '!'],
        ['\n', 'c', '=', 'd', '-', '>', 'e', ';', 'e', '=', '1', ' ']])).errors = [] ∧
      outlineNames (lines [['a', '=', 'f', ' ', 'b', '-', '-', '!'],
          ['\n', 'c', '=', 'd', '-', '>', 'e', ';', 'e', '=', '1', ' ']]) =
        ["a", "c", "e"] := by
  have first : DeclaresName ['a', '=', 'f', ' ', 'b', '-', '-', '!'] := by decide +kernel
  have second : DeclaresName ['\n', 'c', '=', 'd', '-', '>', 'e', ';', 'e', '=', '1', ' '] := by
    decide +kernel
  obtain ⟨errors, -, -, names⟩ := childNodes_lines (List.cons_ne_nil _ [_])
    (List.forall_mem_cons.mpr ⟨first, List.forall_mem_singleton.mpr second⟩)
  refine ⟨first, second, errors, names.trans ?_⟩
  decide +kernel

end Parse

end Scrapscript
