import Scrapscript.Proofs.Composition
import Scrapscript.Proofs.Declaration
import Scrapscript.Proofs.Highlight

/-!
The outline of a document and its highlights. The outline lists the declarations in the order in
which they start, each with its pattern, which it begins with. The names that are highlighted as
declared are those of its entries.
-/

namespace Scrapscript

/-- Two lists that are ordered by where their members stand, each member of either being related to
one of the other list that stands at the same place, are related member by member. -/
theorem forall₂_of_ordered {α β : Type} {related : α → β → Prop} {place : α → Nat} {site : β → Nat}
    {firsts : List α} {seconds : List β}
    (aligned : ∀ first second, related first second → place first = site second)
    (firstOrdered : firsts.Pairwise (place · < place ·))
    (secondOrdered : seconds.Pairwise (site · < site ·))
    (left : ∀ first ∈ firsts, ∃ second ∈ seconds, related first second)
    (right : ∀ second ∈ seconds, ∃ first ∈ firsts, related first second) :
    List.Forall₂ related firsts seconds := by
  induction firsts generalizing seconds with
  | nil =>
      cases seconds with
      | nil => exact .nil
      | cons second _ =>
          obtain ⟨_, listed, -⟩ := right second (.head _)
          contradiction
  | cons first firsts inductionHypothesis =>
      cases seconds with
      | nil =>
          obtain ⟨_, listed, -⟩ := left first (.head _)
          contradiction
      | cons second seconds =>
          rw [List.pairwise_cons] at firstOrdered secondOrdered
          obtain ⟨other, listed, relates⟩ := left first (.head _)
          obtain ⟨another, alsoListed, alsoRelates⟩ := right second (.head _)
          have same := aligned _ _ relates
          have alsoSame := aligned _ _ alsoRelates
          -- Neither of the first two members stands before the other.
          have foremost : place first = site second := by
            rcases List.mem_cons.mp listed with rfl | later
            · exact same
            · rcases List.mem_cons.mp alsoListed with rfl | alsoLater
              · exact alsoSame
              · have after := secondOrdered.1 other later
                have alsoAfter := firstOrdered.1 another alsoLater
                omega
          refine .cons ?_ (inductionHypothesis firstOrdered.2 secondOrdered.2 ?_ ?_)
          · rcases List.mem_cons.mp listed with rfl | later
            · exact relates
            · have after := secondOrdered.1 other later
              omega
          · intro member among
            obtain ⟨partner, found, paired⟩ := left member (.tail _ among)
            rcases List.mem_cons.mp found with rfl | later
            · have after := firstOrdered.1 member among
              have place := aligned _ _ paired
              omega
            · exact ⟨partner, later, paired⟩
          · intro member among
            obtain ⟨partner, found, paired⟩ := right member (.tail _ among)
            rcases List.mem_cons.mp found with rfl | later
            · have after := secondOrdered.1 member among
              have place := aligned _ _ paired
              omega
            · exact ⟨partner, later, paired⟩

theorem forall₂_filterMap {α β : Type} {choose : α → Option β} {members : List α}
    (all : ∀ member ∈ members, (choose member).isSome = true) :
    List.Forall₂ (fun member chosen => choose member = some chosen) members
      (members.filterMap choose) := by
  induction members with
  | nil => exact .nil
  | cons member members inductionHypothesis =>
      obtain ⟨chosen, chooses⟩ := Option.isSome_iff_exists.mp (all member (.head _))
      rw [List.filterMap_cons_some chooses]
      exact .cons chooses (inductionHypothesis fun other listed => all other (.tail _ listed))

namespace Highlight

variable {above : List Frame}

/-- What a declaration binds is no tag. -/
theorem notTag_of_isDeclared (declared : isDeclared above = true) :
    above.head?.any (·.kind == .tag) = false := by
  cases above with
  | nil => contradiction
  | cons frame above =>
      rcases isDeclared_cons_iff.mp declared with ⟨declaration, -⟩ | ⟨ascription, -⟩
      · simp [declaration]
      · simp [ascription]

theorem snd_classifyName (name : String) (above : List Frame) :
    (classifyName name above).2 = true ↔
      Catalog.isBuiltin name = false ∧ Catalog.isKeyword name = false ∧
        isDeclared above = true := by
  by_cases tag : above.head?.any (·.kind == .tag) = true
  · have other : isDeclared above = false :=
      Bool.eq_false_iff.mpr fun declared =>
        absurd tag (Bool.eq_false_iff.mp (notTag_of_isDeclared declared))
    simp [classifyName, tag, other]
  · cases builtin : Catalog.isBuiltin name with
    | true => simp [classifyName, tag, builtin]
    | false =>
        cases keyword : Catalog.isKeyword name with
        | true => simp [classifyName, tag, builtin, keyword]
        | false => simp [classifyName, tag, builtin, keyword]

/-- The tokens that a declaration binds: identifiers that are declared and have no other class. -/
theorem classify?_declares_iff {leaf : Leaf} :
    (classify? leaf).any Prod.snd = true ↔
      leaf.kind = .ident ∧ Catalog.isBuiltin leaf.text.asString = false ∧
        Catalog.isKeyword leaf.text.asString = false ∧ isDeclared leaf.above.tail = true := by
  by_cases ident : leaf.kind = .ident
  · simp [classify?, ident, snd_classifyName]
  · have other : (classify? leaf).any Prod.snd = false := by
      unfold classify?
      split <;> first | rfl | contradiction | (split <;> rfl)
    simp [other, ident]

end Highlight

namespace Symbol

/-- The entry of a declaration: it spans the declaration and shows its pattern. -/
structure IsEntryOf (symbol : Symbol) (document : Document) (declaration : Node) : Prop where
  range : symbol.range = document.nodeRange declaration
  pattern : ∃ pattern, declaration.firstNode? = some pattern ∧
    symbol.selection = document.nodeRange pattern ∧ symbol.name = patternName pattern.tree

variable {document : Document} {declaration name : Node} {symbol : Symbol}

theorem isEntryOf_of_ofDeclaration? (made : ofDeclaration? document declaration = some symbol) :
    symbol.IsEntryOf document declaration := by
  unfold ofDeclaration? at made
  cases first : declaration.firstNode? with
  | none => simp [first] at made
  | some pattern =>
      rw [first] at made
      obtain rfl := Option.some.inj made
      exact ⟨rfl, pattern, first, rfl, rfl⟩

/-- The entry of a declaration that binds a name is called so. -/
theorem IsEntryOf.name_of_binds (entry : symbol.IsEntryOf document declaration)
    (binds : declaration.Binds name) : symbol.name = name.text.trim.asString := by
  obtain ⟨pattern, first, -, called⟩ := entry.pattern
  have identified (identifier : name.kind = .identifier) :
      patternName name.tree = name.text.trim.asString := by
    rw [Node.text, Node.tree, identifier]
    rfl
  cases binds with
  | plain also identifier =>
      obtain rfl := Option.some.inj (first.symm.trans also)
      rw [called, identified identifier]
  | typed outer ascription inner identifier =>
      obtain rfl := Option.some.inj (first.symm.trans outer)
      have shown : firstPatternName? pattern.children = some (patternName name.tree) := by
        rw [Parse.firstPatternName?_eq, ← Node.map_childNodes, List.head?_map,
          show pattern.childNodes.head? = some name from inner]
        rfl
      rw [called, Node.tree, ascription, patternName, shown]
      exact identified identifier

end Symbol

namespace Highlight

variable {index : LineIndex} {leaf : Leaf} {kind : HighlightKind} {isDeclaration : Bool}

theorem isDeclaration_ofLines {highlight : Highlight} {offset : Nat} {lines : List Text}
    (listed : highlight ∈ ofLines index kind isDeclaration offset lines) :
    highlight.isDeclaration = isDeclaration := by
  induction lines generalizing offset with
  | nil => contradiction
  | cons line more inductionHypothesis =>
      rw [ofLines] at listed
      split at listed
      · exact inductionHypothesis listed
      · rcases List.mem_cons.mp listed with rfl | later
        · rfl
        · exact inductionHypothesis later

/-- The highlights of names that are declared are those of the tokens that declarations bind. -/
theorem filter_flatMap_ofLeaf (index : LineIndex) (leaves : List Leaf) :
    (leaves.flatMap (ofLeaf index)).filter Highlight.isDeclaration =
      (leaves.filter fun leaf => (classify? leaf).any Prod.snd).flatMap (ofLeaf index) := by
  induction leaves with
  | nil => rfl
  | cons leaf leaves inductionHypothesis =>
      rw [List.flatMap_cons, List.filter_append, inductionHypothesis, List.filter_cons]
      cases classified : classify? leaf with
      | none => simp [ofLeaf, classified]
      | some found =>
          obtain ⟨kind, isDeclaration⟩ := found
          have each : ∀ highlight ∈ ofLeaf index leaf, highlight.isDeclaration = isDeclaration := by
            rw [ofLeaf, classified]
            exact fun highlight listed => isDeclaration_ofLines listed
          cases isDeclaration with
          | true =>
              rw [List.filter_eq_self.mpr each]
              simp
          | false =>
              have none : ∀ highlight ∈ ofLeaf index leaf, ¬ highlight.isDeclaration = true :=
                fun highlight listed => by simp [each highlight listed]
              rw [List.filter_eq_nil_iff.mpr none]
              simp

/-- A name is highlighted as a whole. -/
theorem ofLeaf_of_name (classified : classify? leaf = some (kind, isDeclaration))
    (accepted : ∀ char ∈ leaf.text, Lexer.isNameChar char = true) (some : leaf.text ≠ []) :
    ofLeaf index leaf = [⟨(index.position leaf.start).line, (index.position leaf.start).character,
      leaf.text.units, kind, isDeclaration⟩] := by
  have plain : '\n' ∉ leaf.text := fun listed => absurd (accepted _ listed) (by decide)
  have whole : leaf.text.withoutReturn = leaf.text := by
    rw [Text.withoutReturn, if_neg]
    intro last
    exact absurd (accepted _ (List.mem_of_getLast? last)) (by decide)
  rw [ofLeaf, classified]
  simp only [Text.lines_eq_splitOn, List.splitOn_eq_singleton plain, ofLines,
    Text.withoutLast_return, whole, List.isEmpty_iff, some, if_false]

end Highlight

theorem forall₂_flatMap {α β γ : Type} {parts : α → List β} {related : α → γ → Prop}
    {results : β → γ → Prop} {firsts : List α} {seconds : List γ}
    (pairs : List.Forall₂ related firsts seconds)
    (single : ∀ first ∈ firsts, ∀ second, related first second →
      ∃ part, parts first = [part] ∧ results part second) :
    List.Forall₂ results (firsts.flatMap parts) seconds := by
  induction pairs with
  | nil => exact .nil
  | cons relates _ inductionHypothesis =>
      obtain ⟨part, only, result⟩ := single _ (.head _) _ relates
      rw [List.flatMap_cons, only]
      exact .cons result (inductionHypothesis fun first listed => single first (.tail _ listed))

/-- The entries of the outline that show a name which has no meaning of its own, each with its
declaration. -/
def Document.declaredNames (document : Document) : List (Node × Symbol) :=
  ((document.root.ofKind .declaration).zip document.outline).filter fun entry =>
    entry.1.tree.declaresName && !Catalog.isBuiltin entry.2.name && !Catalog.isKeyword entry.2.name

namespace Document

variable {document : Document} {text : Text} {leaf : Leaf}

section

variable (opened : ofText text = .ok document)

include opened

theorem outline_entries :
    List.Forall₂ (fun declaration symbol => Symbol.IsEntryOf symbol document declaration)
      (document.root.ofKind .declaration) document.outline := by
  apply (forall₂_filterMap ?_).imp
  · intro declaration symbol made
    exact Symbol.isEntryOf_of_ofDeclaration? made
  · intro declaration listed
    obtain ⟨visited, kind⟩ := Node.mem_ofKind.mp listed
    have compound : declaration.kind.isCompound = true := by rw [kind]; rfl
    obtain ⟨pattern, later, stands, -⟩ := exists_leading opened visited compound
    simp [Symbol.ofDeclaration?, stands.firstNode?]

theorem ordered_ranges :
    document.outline.Pairwise fun earlier later =>
      earlier.range.start < later.range.start ∧
        (later.range.stop ≤ earlier.range.stop ∨ earlier.range.stop ≤ later.range.start) := by
  have ranges : List.Forall₂ (· = ·) ((document.root.ofKind .declaration).map document.nodeRange)
      (document.outline.map Symbol.range) := by
    rw [List.forall₂_map_left_iff, List.forall₂_map_right_iff]
    exact (outline_entries opened).imp fun _ _ entry => entry.range.symm
  rw [List.forall₂_eq_eq_eq] at ranges
  have ordered : ((document.root.ofKind .declaration).map document.nodeRange).Pairwise
      fun earlier later => earlier.start < later.start ∧
        (later.stop ≤ earlier.stop ∨ earlier.stop ≤ later.start) := by
    rw [List.pairwise_map]
    apply (ordered_declarations opened).imp_of_mem
    intro earlier later earlierListed laterListed order
    have earlierVisited := List.mem_of_mem_filter earlierListed
    have laterVisited := List.mem_of_mem_filter laterListed
    obtain ⟨earlierStarts, earlierStops⟩ := isBoundary_of_node opened earlierVisited
    obtain ⟨laterStarts, laterStops⟩ := isBoundary_of_node opened laterVisited
    rw [(nodeRange_ends opened earlierVisited).1, (nodeRange_ends opened earlierVisited).2,
      (nodeRange_ends opened laterVisited).1, (nodeRange_ends opened laterVisited).2]
    obtain ⟨rfl, -⟩ := eq_of_ofText opened
    refine ⟨LineIndex.position_lt earlierStarts laterStarts order.1, ?_⟩
    exact order.2.imp (LineIndex.position_le laterStops earlierStops)
      (LineIndex.position_le earlierStops laterStarts)
  rw [ranges] at ordered
  exact List.pairwise_map.mp ordered

/-- The pattern of a declaration starts with it. -/
theorem selection_ends {declaration : Node} {symbol : Symbol}
    (listed : declaration ∈ document.root.ofKind .declaration)
    (entry : symbol.IsEntryOf document declaration) :
    symbol.selection.start = document.index.position declaration.start ∧
      symbol.selection.start = symbol.range.start ∧ symbol.selection.stop ≤ symbol.range.stop := by
  obtain ⟨visited, kind⟩ := Node.mem_ofKind.mp listed
  have compound : declaration.kind.isCompound = true := by rw [kind]; rfl
  obtain ⟨pattern, first, selection, -⟩ := entry.pattern
  obtain ⟨later, stands⟩ := standsIn_of_firstNode? opened visited compound first
  have start : pattern.start = declaration.start := stands.start
  have below := Node.mem_descendants_of_child (List.mem_of_mem_head? first)
  have patternVisited := Node.mem_descendants_trans below visited
  have stops := (isBoundary_of_node opened visited).2
  have patternStops := (isBoundary_of_node opened patternVisited).2
  rw [entry.range, selection, (nodeRange_ends opened visited).1, (nodeRange_ends opened visited).2,
    (nodeRange_ends opened patternVisited).1, (nodeRange_ends opened patternVisited).2, start]
  obtain ⟨rfl, -⟩ := eq_of_ofText opened
  exact ⟨rfl, rfl, LineIndex.position_le patternStops stops (Node.span_within below).2⟩

theorem mem_tokenize_of_leaf (listed : leaf ∈ document.root.leaves) :
    leaf.token ∈ Lexer.tokenize text := by
  rw [← token_leaves opened]
  exact List.mem_map_of_mem listed

theorem ordered_leaves : document.root.leaves.Pairwise (·.start < ·.start) := by
  have positive : ∀ token ∈ document.root.tree.tokens, 0 < token.width := by
    rw [← Node.token_leaves, token_leaves opened]
    exact fun _ => Lexer.width_pos
  have ordered := Token.ordered_located document.root.start positive
  rwa [← Node.located_leaves, List.pairwise_map] at ordered

/-- An identifier has characters, all of which may stand in a name. -/
theorem isNameChar_of_ident (listed : leaf ∈ document.root.leaves) (ident : leaf.kind = .ident) :
    leaf.text ≠ [] ∧ ∀ char ∈ leaf.text, Lexer.isNameChar char = true := by
  obtain ⟨before, after, read⟩ := List.append_of_mem (mem_tokenize_of_leaf opened listed)
  have best := Lexer.bestMatch_of_tokenize (Lexer.tokenize_textOf_suffix read)
  have kind : leaf.token.kind = .ident := ident
  have member := best.belongs (by simp [kind])
  rw [kind] at member
  exact ⟨best.nonempty, Lexer.isNameChar_of_mem_ident member⟩

/-- The highlight of a name is where the name is. -/
theorem exists_highlight_of_name {kind : HighlightKind} {isDeclaration : Bool}
    (listed : leaf ∈ document.root.leaves) (ident : leaf.kind = .ident)
    (classified : Highlight.classify? leaf = some (kind, isDeclaration)) :
    ∃ highlight, Highlight.ofLeaf document.index leaf = [highlight] ∧
      highlight.start = document.index.position leaf.start ∧ highlight.Spells text leaf.text := by
  obtain ⟨some, accepted⟩ := isNameChar_of_ident opened listed ident
  refine ⟨_, Highlight.ofLeaf_of_name classified accepted some, rfl, ?_⟩
  obtain ⟨before, after, tokens, start⟩ := Node.within_of_leaf listed
  rw [← Node.token_leaves, token_leaves opened] at tokens
  have whole : text = Token.textOf before ++ leaf.text ++ Token.textOf after := by
    rw [← Lexer.textOf_tokenize text, tokens, Token.textOf_append]
    simp [Token.textOf, Leaf.text]
  obtain ⟨rfl, -⟩ := eq_of_ofText opened
  have begins : Token.textOf before <+: text := ⟨leaf.text ++ Token.textOf after, by simp [whole]⟩
  have offset : leaf.start = (Token.textOf before).bytes := by
    rw [Token.bytes_textOf]
    exact start.trans (Nat.zero_add _)
  apply Highlight.StandsFor.spells
  refine ⟨⟨Token.textOf after, whole.symm⟩, some, ?_, ?_, rfl⟩
  · intro newline
    exact absurd (accepted _ newline) (by decide)
  · rw [offset, LineIndex.position_bytes begins]
    rfl

/-- The entry of a declaration that binds a name, and the token of this name. -/
theorem name_of_binds {declaration name : Node} {symbol : Symbol}
    (listed : declaration ∈ document.root.ofKind .declaration)
    (entry : symbol.IsEntryOf document declaration) (binds : declaration.Binds name) :
    ∃ leaf ∈ document.root.leaves, name.childLeaves = [leaf] ∧ leaf.kind = .ident ∧
      leaf.start = declaration.start ∧ symbol.name = leaf.text.asString ∧
      Highlight.isDeclared leaf.above.tail = true := by
  obtain ⟨leaf, visited, only, ident, start, spelled, declared⟩ :=
    exists_leaf_of_binds opened listed binds
  refine ⟨leaf, visited, only, ident, start, ?_, declared⟩
  rw [entry.name_of_binds binds, ← spelled,
    Lexer.trim_of_name (isNameChar_of_ident opened visited ident).2]

/-- An entry of the outline and the token that it is called after. -/
def Entitles (document : Document) (leaf : Leaf) (entry : Node × Symbol) : Prop :=
  leaf.start = entry.1.start ∧ entry.2.name = leaf.text.asString ∧
    entry.2.IsEntryOf document entry.1 ∧ entry.1 ∈ document.root.ofKind .declaration

/-- The declared tokens are those that entries with a declared name are called after, one after the
other. -/
theorem entitles_declaredNames :
    List.Forall₂ document.Entitles
      (document.root.leaves.filter fun leaf => (Highlight.classify? leaf).any Prod.snd)
      document.declaredNames := by
  obtain ⟨length, entries⟩ := List.forall₂_iff_zip.mp (outline_entries opened)
  have firsts : ((document.root.ofKind .declaration).zip document.outline).map Prod.fst =
      document.root.ofKind .declaration := List.map_fst_zip (Nat.le_of_eq length)
  apply forall₂_of_ordered fun leaf entry entitles => entitles.1
  · exact (ordered_leaves opened).filter _
  · apply List.Pairwise.filter
    have ordered := ordered_declarations opened
    rw [← firsts, List.pairwise_map] at ordered
    exact ordered.imp And.left
  · intro leaf among
    obtain ⟨visited, declares⟩ := List.mem_filter.mp among
    obtain ⟨ident, noBuiltin, noKeyword, declared⟩ :=
      Highlight.classify?_declares_iff.mp declares
    obtain ⟨declaration, listed, name, binds, child⟩ :=
      exists_binds_of_leaf opened visited ident declared
    rw [← firsts] at listed
    obtain ⟨⟨found, symbol⟩, zipped, same⟩ := List.mem_map.mp listed
    obtain rfl : found = declaration := same
    rw [firsts] at listed
    have entry := entries zipped
    obtain ⟨other, -, only, -, start, called, -⟩ := name_of_binds opened listed entry binds
    obtain rfl : leaf = other := List.mem_singleton.mp (only ▸ child)
    refine ⟨_, List.mem_filter.mpr ⟨zipped, ?_⟩, start, called, entry, listed⟩
    have declares := (Node.declaresName_iff (Node.mem_ofKind.mp listed).2).mpr ⟨name, binds⟩
    simp [declares, called, noBuiltin, noKeyword]
  · rintro ⟨declaration, symbol⟩ among
    obtain ⟨zipped, conditions⟩ := List.mem_filter.mp among
    have listed : declaration ∈ document.root.ofKind .declaration := (List.of_mem_zip zipped).1
    have kind := (Node.mem_ofKind.mp listed).2
    simp only [Bool.and_eq_true, Bool.not_eq_true'] at conditions
    obtain ⟨⟨declares, noBuiltin⟩, noKeyword⟩ := conditions
    obtain ⟨name, binds⟩ := (Node.declaresName_iff kind).mp declares
    obtain ⟨leaf, visited, -, ident, start, called, declared⟩ :=
      name_of_binds opened listed (entries zipped) binds
    rw [called] at noBuiltin noKeyword
    refine ⟨leaf, List.mem_filter.mpr ⟨visited, ?_⟩, start, called, entries zipped, listed⟩
    exact Highlight.classify?_declares_iff.mpr ⟨ident, noBuiltin, noKeyword, declared⟩

/-- The outline has one entry for each declaration, in the order in which they are visited, which is
also the order in which they start; the range of a later entry is inside of that of an earlier one
or starts where that one has stopped. The pattern that is selected in an entry starts with it and
stops no later. The names that are highlighted as declared are, in order, those of the entries whose
pattern is a name, possibly with a type, unless the name is that of a function of the language or a
keyword: they start where the selection does and are spelled as the entry is called. -/
theorem outline_agrees_with_highlights :
    List.Forall₂ (fun declaration symbol => Symbol.IsEntryOf symbol document declaration)
      (document.root.ofKind .declaration) document.outline ∧
    document.outline.Pairwise (fun earlier later =>
      earlier.range.start < later.range.start ∧
        (later.range.stop ≤ earlier.range.stop ∨ earlier.range.stop ≤ later.range.start)) ∧
    (∀ symbol ∈ document.outline, symbol.selection.start = symbol.range.start ∧
      symbol.selection.stop ≤ symbol.range.stop) ∧
    List.Forall₂ (fun highlight entry => highlight.start = entry.2.selection.start ∧
        highlight.Spells text entry.2.name.toList)
      (document.highlights.filter (·.isDeclaration)) document.declaredNames := by
  refine ⟨outline_entries opened, ordered_ranges opened, ?_, ?_⟩
  · intro symbol listed
    obtain ⟨declaration, isDeclaration, made⟩ := List.mem_filterMap.mp listed
    exact (selection_ends opened isDeclaration (Symbol.isEntryOf_of_ofDeclaration? made)).2
  · rw [highlights, Highlight.filter_flatMap_ofLeaf]
    apply forall₂_flatMap (entitles_declaredNames opened)
    rintro leaf among ⟨declaration, symbol⟩ ⟨start, called, entry, isDeclaration⟩
    obtain ⟨visited, declares⟩ := List.mem_filter.mp among
    have ident := (Highlight.classify?_declares_iff.mp declares).1
    obtain ⟨⟨kind, flag⟩, classified, -⟩ := (Option.any_eq_true ..).mp declares
    obtain ⟨highlight, only, starts, spells⟩ :=
      exists_highlight_of_name opened visited ident classified
    refine ⟨highlight, only, ?_, ?_⟩
    · rw [starts, start]
      exact (selection_ends opened isDeclaration entry).1.symm
    · rw [show symbol.name = _ from called, Text.asString, String.toList_ofList]
      exact spells

end

/-- In `a:t=(b;b=1);(c)=2` there are three declarations, of which the one in parentheses binds no
name. -/
theorem outline_agrees_with_highlights_clauses :
    ∃ document, ofText ['a', ':', 't', '=', '(', 'b', ';', 'b', '=', '1', ')', ';', '(', 'c', ')',
        '=', '2'] = .ok document ∧
      document.outline.map (fun symbol =>
        (symbol.name, symbol.range.start.character, symbol.range.stop.character)) =
        [("a", 0, 17), ("b", 7, 10), ("(c)", 12, 17)] ∧
      (document.highlights.filter (·.isDeclaration)).map (fun highlight =>
        (highlight.line, highlight.column, highlight.length)) = [(0, 0, 1), (0, 7, 1)] ∧
      List.Forall₂ (fun highlight entry => highlight.start = entry.2.selection.start ∧
          highlight.Spells ['a', ':', 't', '=', '(', 'b', ';', 'b', '=', '1', ')', ';', '(', 'c',
            ')', '=', '2'] entry.2.name.toList)
        (document.highlights.filter (·.isDeclaration)) document.declaredNames := by
  have opened := ofText_of_shallow (by decide)
    (show (Parse.ofText ['a', ':', 't', '=', '(', 'b', ';', 'b', '=', '1', ')', ';', '(', 'c', ')',
      '=', '2']).tooDeep = false by decide +kernel)
  exact ⟨_, opened, by decide +kernel, by decide +kernel,
    (outline_agrees_with_highlights opened).2.2.2⟩

end Document

end Scrapscript
