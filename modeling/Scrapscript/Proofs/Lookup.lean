import Scrapscript.Proofs.Request
import Scrapscript.Proofs.Tokenization

/-!
Look-up of a position. The token that is found by going down into the tree is the one that a scan
over the tokens of the text comes to, whatever empty nodes stand between them and however deep they
are, and the node that is located is the one that this token is a child of.
-/

namespace Scrapscript

/-- Of tokens that stand one after the other, the one that an offset belongs to: the one that it
lies in, and where two meet the left one, unless that one is trivia and the right one is not. -/
def Token.ownerAt? (offset : Nat) : List (Token × Nat) → Option (Token × Nat)
  | [] => none
  | [only] => some only
  | left :: right :: rest =>
      if offset < right.2 then some left
      else if offset = right.2 then
        if left.1.isTrivia && !right.1.isTrivia then some right else some left
      else ownerAt? offset (right :: rest)

/-- A scan comes to some token, unless there is none. -/
theorem Token.ownerAt?_eq_none_iff (offset : Nat) (spots : List (Token × Nat)) :
    ownerAt? offset spots = none ↔ spots = [] := by
  fun_induction ownerAt? offset spots <;> simp_all

namespace Leaf

/-- Tokens that stand one after the other from an offset on, each of some width. -/
def Adjoin (start : Nat) : List Leaf → Prop
  | [] => True
  | leaf :: rest => leaf.start = start ∧ 0 < leaf.token.width ∧ Adjoin leaf.stop rest

variable {start offset : Nat} {leaves : List Leaf}

theorem adjoin_of_located
    (located : leaves.map (fun leaf => (leaf.token, leaf.start)) =
      Token.located start (leaves.map Leaf.token))
    (wide : ∀ leaf ∈ leaves, 0 < leaf.token.width) : Adjoin start leaves := by
  induction leaves generalizing start with
  | nil => trivial
  | cons leaf rest inductionHypothesis =>
      simp only [List.map_cons, Token.located, List.cons.injEq, Prod.mk.injEq, true_and] at located
      obtain ⟨rfl, later⟩ := located
      exact ⟨rfl, wide leaf (.head _),
        inductionHypothesis later fun other listed => wide other (.tail _ listed)⟩

theorem Adjoin.start_le (adjoin : Adjoin start leaves) :
    ∀ leaf ∈ leaves, start ≤ leaf.start := by
  induction leaves generalizing start with
  | nil => simp
  | cons first rest inductionHypothesis =>
      obtain ⟨rfl, -, later⟩ := adjoin
      intro leaf listed
      rcases List.mem_cons.mp listed with rfl | inRest
      · exact Nat.le_refl _
      · exact Nat.le_trans (Nat.le_add_right _ _) (inductionHypothesis later leaf inRest)

theorem Adjoin.pairwise (adjoin : Adjoin start leaves) :
    leaves.Pairwise fun earlier later => earlier.stop ≤ later.start := by
  induction leaves generalizing start with
  | nil => exact .nil
  | cons first rest inductionHypothesis =>
      exact .cons adjoin.2.2.start_le (inductionHypothesis adjoin.2.2)

theorem Adjoin.filter_touches_eq_nil (adjoin : Adjoin start leaves) (before : offset < start) :
    leaves.filter (touches offset) = [] := by
  rw [List.filter_eq_nil_iff]
  intro leaf listed touched
  have later := adjoin.start_le leaf listed
  obtain ⟨-, begun, -⟩ := touches_iff.mp touched
  omega

/-- At most two tokens touch an offset, and two meet there. -/
theorem Adjoin.filter_touches (adjoin : Adjoin start leaves) (offset : Nat) :
    leaves.filter (touches offset) = [] ∨
      (∃ only, leaves.filter (touches offset) = [only]) ∨
      ∃ left right, leaves.filter (touches offset) = [left, right] ∧
        left.stop = offset ∧ right.start = offset := by
  have ordered := adjoin.pairwise.filter (touches offset)
  have touched : ∀ leaf ∈ leaves.filter (touches offset),
      0 < leaf.token.width ∧ leaf.start ≤ offset ∧ offset ≤ leaf.stop :=
    fun leaf listed => touches_iff.mp (List.mem_filter.mp listed).2
  generalize leaves.filter (touches offset) = found at ordered touched
  match found with
  | [] => exact .inl rfl
  | [only] => exact .inr (.inl ⟨only, rfl⟩)
  | left :: right :: rest =>
      rw [List.pairwise_cons, List.pairwise_cons] at ordered
      obtain ⟨afterLeft, afterRight, -⟩ := ordered
      have meets := afterLeft right (.head _)
      have leftTouched := touched left (.head _)
      have rightTouched := touched right (.tail _ (.head _))
      -- A third token would start where the second one stops, which is past the offset.
      have none : rest = [] := by
        rw [List.eq_nil_iff_forall_not_mem]
        intro third listed
        have thirdTouched := touched third (.tail _ (.tail _ listed))
        have later := afterRight third listed
        rw [stop] at later
        omega
      exact .inr (.inr ⟨left, right, by rw [none], by omega, by omega⟩)

/-- What is picked of the tokens that touch an offset is what a scan over all tokens comes to. -/
theorem Adjoin.pick_filter_touches (adjoin : Adjoin start leaves) (begun : start ≤ offset)
    (within : offset ≤ start + Token.widthOf (leaves.map token)) :
    (Document.pick (leaves.filter (touches offset))).map (fun leaf => (leaf.token, leaf.start)) =
      Token.ownerAt? offset (leaves.map fun leaf => (leaf.token, leaf.start)) := by
  induction leaves generalizing start with
  | nil => rfl
  | cons left rest inductionHypothesis =>
      obtain ⟨rfl, leftWide, later⟩ := adjoin
      cases rest with
      | nil =>
          have touched : left.touches offset = true := by
            simp only [List.map_cons, List.map_nil, Token.widthOf, Nat.add_zero] at within
            exact touches_iff.mpr ⟨leftWide, begun, within⟩
          rw [List.filter_cons_of_pos touched]
          rfl
      | cons right rest =>
          have meets : right.start = left.stop := later.1
          rcases Nat.lt_trichotomy offset right.start with inside | same | past
          · have touched : left.touches offset = true :=
              touches_iff.mpr ⟨leftWide, begun, by omega⟩
            rw [List.filter_cons_of_pos touched, later.filter_touches_eq_nil (by omega)]
            simp [Document.pick, Token.ownerAt?, inside]
          · have leftTouched : left.touches offset = true :=
              touches_iff.mpr ⟨leftWide, begun, by omega⟩
            have rightTouched : right.touches offset = true :=
              touches_iff.mpr ⟨later.2.1, by omega, by rw [stop]; omega⟩
            have rightWide := later.2.1
            rw [List.filter_cons_of_pos leftTouched, List.filter_cons_of_pos rightTouched,
              later.2.2.filter_touches_eq_nil (by rw [stop]; omega)]
            simp only [Document.pick, List.map_cons, Token.ownerAt?, same, Nat.lt_irrefl,
              if_false, if_true, Leaf.isTrivia]
            exact apply_ite (Option.map _) _ _ _
          · have untouched : ¬ left.touches offset = true := by
              rw [touches_iff]
              omega
            rw [List.filter_cons_of_neg untouched,
              inductionHypothesis later (by omega) (by
                simp only [List.map_cons, Token.widthOf, stop] at within ⊢
                omega)]
            simp [Token.ownerAt?, Nat.not_lt_of_gt past, Nat.ne_of_gt past]

end Leaf

namespace Document

variable {document : Document} {text : Text} {position : Position} {offset : Nat} {leaf : Leaf}

theorem leaf_width_pos (opened : ofText text = .ok document)
    (visited : leaf ∈ document.root.leaves) : 0 < leaf.token.width := by
  have listed : leaf.token ∈ Lexer.tokenize text := by
    rw [← token_leaves opened]
    exact List.mem_map_of_mem visited
  exact Lexer.width_pos listed

/-- The tokens of a document stand one after the other from its start on. -/
theorem adjoin_leaves (opened : ofText text = .ok document) :
    Leaf.Adjoin 0 document.root.leaves := by
  apply Leaf.adjoin_of_located
  · rw [Node.token_leaves]
    exact document.root.located_leaves
  · intro leaf visited
    exact leaf_width_pos opened visited

theorem leafAt?_eq_pick (there : document.offset? position = some offset) :
    document.leafAt? position = pick (document.root.leaves.filter (Leaf.touches offset)) := by
  simp only [leafAt?, there, Node.touching_eq_filter]

theorem offset_le (opened : ofText text = .ok document)
    (there : document.offset? position = some offset) : offset ≤ text.bytes := by
  obtain ⟨rfl, -⟩ := eq_of_ofText opened
  obtain ⟨⟨before, ⟨after, split⟩, rfl⟩, -, -⟩ := LineIndex.offset?_snapped there
  rw [← split, Text.bytes_append]
  exact Nat.le_add_right _ _

/-- The tokens of a document in their places are those of its text. -/
theorem located_leaves (opened : ofText text = .ok document) :
    document.root.leaves.map (fun leaf => (leaf.token, leaf.start)) =
      Token.located 0 (Lexer.tokenize text) := by
  rw [← token_leaves opened, Node.token_leaves]
  exact document.root.located_leaves

theorem leafAt?_eq_ownerAt? (opened : ofText text = .ok document)
    (there : document.offset? position = some offset) :
    (document.leafAt? position).map (fun leaf => (leaf.token, leaf.start)) =
      Token.ownerAt? offset (Token.located 0 (Lexer.tokenize text)) := by
  rw [leafAt?_eq_pick there, ← located_leaves opened]
  apply (adjoin_leaves opened).pick_filter_touches (Nat.zero_le _)
  rw [token_leaves opened, ← Token.bytes_textOf, Lexer.textOf_tokenize, Nat.zero_add]
  exact offset_le opened there

theorem leafAt?_eq_none_iff (opened : ofText text = .ok document)
    (there : document.offset? position = some offset) :
    document.leafAt? position = none ↔ text = [] := by
  rw [← Option.map_eq_none_iff, leafAt?_eq_ownerAt? opened there, Token.ownerAt?_eq_none_iff,
    ← List.map_eq_nil_iff (f := Prod.fst), Token.map_fst_located]
  constructor
  · intro none
    rw [← Lexer.textOf_tokenize text, none]
    rfl
  · rintro rfl
    rfl

/-- Where a token is found, the node that is located is the one it is a child of. -/
theorem exists_childLeaf (there : document.offset? position = some offset)
    (found : document.leafAt? position = some leaf) :
    ∃ node ∈ document.root.descendants, document.locate? position = some node ∧
      leaf ∈ node.childLeaves := by
  obtain ⟨visited, -, -⟩ := mem_leaves_of_leafAt? found there
  obtain ⟨parent, below, child⟩ := Node.parent_of_leaf visited
  refine ⟨parent, below, ?_, child⟩
  simp only [locate?, there, found]
  exact Place.parent?_of_row [] _ _ child

/-- A node is located exactly on the lines that exist, one more than there are line breaks. The token
found there is the one that a scan over the tokens of the text comes to, and there is none only in
an empty document. The node is the one that the token is a child of, the root of an empty document,
and the offset lies in it. -/
theorem lookup_agrees_with_scan (opened : ofText text = .ok document) (position : Position) :
    ((document.locate? position).isSome = true ↔ position.line ≤ text.count '\n') ∧
      ∀ offset, document.offset? position = some offset →
        (document.leafAt? position).map (fun leaf => (leaf.token, leaf.start)) =
            Token.ownerAt? offset (Token.located 0 (Lexer.tokenize text)) ∧
          (document.leafAt? position = none ↔ text = []) ∧
          ∃ node ∈ document.root.descendants, document.locate? position = some node ∧
            node.start ≤ offset ∧ offset ≤ node.stop ∧
            (∀ leaf, document.leafAt? position = some leaf → leaf ∈ node.childLeaves) ∧
            (text = [] → node = document.root) := by
  constructor
  · constructor
    · intro located
      apply Nat.le_of_not_lt
      intro past
      have absent : document.offset? position = none := by
        obtain ⟨rfl, -⟩ := eq_of_ofText opened
        exact (LineIndex.offset?_eq_none_iff position).mpr past
      simp [locate?, absent] at located
    · intro inside
      obtain ⟨offset, there⟩ := exists_offset opened inside
      obtain ⟨node, -, located, -⟩ := exists_located opened there
      rw [located]
      rfl
  · intro offset there
    obtain ⟨node, visited, located, starts, stops⟩ := exists_located opened there
    refine ⟨leafAt?_eq_ownerAt? opened there, leafAt?_eq_none_iff opened there, node, visited,
      located, starts, stops, ?_, ?_⟩
    · intro leaf found
      obtain ⟨parent, -, around, child⟩ := exists_childLeaf there found
      rwa [Option.some.inj (located.symm.trans around)]
    · intro empty
      have absent := (leafAt?_eq_none_iff opened there).mpr empty
      simp only [locate?, there, absent] at located
      exact (Option.some.inj located).symm

-- A blank gives way to the token after it.
example : Token.ownerAt? 4 (Token.located 0 (Lexer.tokenize "(a. )".toList)) =
    some (⟨.closeParen, [')']⟩, 4) := by decide +kernel

/-- In `(a. )` an empty error node stands for the name after the point. -/
theorem lookup_agrees_with_scan_missing :
    ∃ document, ofText ['(', 'a', '.', ' ', ')'] = .ok document ∧
      document.offset? ⟨0, 3⟩ = some 3 ∧
      (document.leafAt? ⟨0, 3⟩).map (fun leaf => (leaf.token, leaf.start)) =
        some (⟨.dot, ['.']⟩, 2) ∧
      ∃ node ∈ document.root.descendants, document.locate? ⟨0, 3⟩ = some node ∧
        node.start ≤ 3 ∧ 3 ≤ node.stop := by
  have opened := ofText_of_shallow (by decide)
    (show (Parse.ofText ['(', 'a', '.', ' ', ')']).tooDeep = false by decide +kernel)
  obtain ⟨-, found⟩ := lookup_agrees_with_scan opened ⟨0, 3⟩
  obtain ⟨scanned, -, node, visited, located, starts, stops, -⟩ := found 3 (by decide +kernel)
  refine ⟨_, opened, by decide +kernel, ?_, node, visited, located, starts, stops⟩
  rw [scanned]
  decide +kernel

end Document

end Scrapscript
