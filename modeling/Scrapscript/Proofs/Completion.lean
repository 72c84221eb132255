import Scrapscript.Completion.Context
import Scrapscript.Proofs.Request

/-!
What is being typed after a dot. In a document that opens, a dot stands right before a node only in
a field access, so that a field name is always looked for there. The rule that looks for a type after
a dot comes later and never decides.
-/

namespace Scrapscript

open Scrapscript.Tree (withoutTrivia)

namespace Node

variable {node : Node}

/-- A token that is found before a node is one of the siblings, and no trivia. -/
theorem mem_of_tokenBefore? {above : List Frame} {kind : NodeKind} {origin stop : Nat}
    {before after : List Tree} {leaf : Leaf}
    (found : tokenBefore? above kind origin after stop before = some leaf) :
    .leaf leaf.token ∈ before ∧ leaf.isTrivia = false := by
  induction before generalizing after stop with
  | nil => contradiction
  | cons first before inductionHypothesis =>
      cases first with
      | node => contradiction
      | leaf token =>
          unfold tokenBefore? at found
          split at found
          · exact (inductionHypothesis found).imp_left (.tail _)
          · rename_i significant
            obtain rfl := Option.some.inj found
            exact ⟨.head _, Bool.eq_false_iff.mpr significant⟩

/-- The token before a node is a child of the same parent, with the node after it. -/
theorem exists_parent_of_previousToken? {root : Node} {leaf : Leaf} (outermost : root.above = [])
    (visited : node ∈ root.descendants) (found : node.previousToken? = some leaf) :
    ∃ parent ∈ root.descendants, node.parentKind? = some parent.kind ∧
      node.tree ∈ withoutTrivia parent.children ∧
      .leaf leaf.token ∈ withoutTrivia parent.children := by
  rcases eq_or_exists_parent visited with rfl | ⟨parent, below, child⟩
  · simp [previousToken?, outermost] at found
  · obtain ⟨earlier, later, children, above, -⟩ := exists_standsIn child
    simp only [previousToken?, above] at found
    obtain ⟨sibling, significant⟩ := mem_of_tokenBefore? found
    refine ⟨parent, below, by simp [parentKind?, above], ?_, ?_⟩
    · exact List.mem_filter.mpr ⟨by simp [children], rfl⟩
    · have kept : (!(Tree.leaf leaf.token).isTrivia) = true := by
        simpa [Tree.isTrivia, Leaf.isTrivia] using significant
      have among : .leaf leaf.token ∈ parent.children := by
        rw [children]
        exact List.mem_append_left _ (List.mem_reverse.mp sibling)
      exact List.mem_filter.mpr ⟨among, kept⟩

end Node

/-- An error that the grammar allows holds no node. -/
theorem Grammar.isNode_of_error {row : List Tree} {tree : Tree}
    (allowed : allows Tree.isError .error row = true) (listed : tree ∈ row) :
    tree.isNode = false := by
  cases tree with
  | leaf => rfl
  | node kind children =>
      rcases (Bool.or_eq_true ..).mp allowed with empty | filled
      · simp [List.isEmpty_iff.mp empty] at listed
      · obtain ⟨place, among, placed⟩ := exists_place filled listed
        rw [List.mem_singleton.mp among] at placed
        contradiction

namespace Completion

variable {document : Document} {text : Text} {node : Node}

/-- A node right after a dot is in a field access. -/
theorem parentIs_of_dot {leaf : Leaf} (opened : Document.ofText text = .ok document)
    (visited : node ∈ document.root.descendants) (found : node.previousToken? = some leaf)
    (dot : leaf.kind = .dot) : node.parentIs .fieldAccess = true := by
  have outermost : document.root.above = [] := by
    obtain ⟨rfl, -⟩ := Document.eq_of_ofText opened
    rfl
  obtain ⟨parent, below, kind, child, sibling⟩ :=
    Node.exists_parent_of_previousToken? outermost visited found
  have allowed : Grammar.allows Tree.isError parent.kind (withoutTrivia parent.children) = true :=
    Document.allowed_of_visited opened below
  have proper : parent.kind ≠ .error := by
    intro error
    rw [error] at allowed
    have childless := Grammar.isNode_of_error allowed child
    contradiction
  have dot : leaf.token.kind = .dot := dot
  have placed := Grammar.isMisplaced_eq_false allowed _ sibling
  have access : parent.kind = .fieldAccess := by
    simpa [Grammar.isMisplaced, dot, proper] using placed
  rw [Node.parentIs, kind, access]
  rfl

theorem parentIs_of_followsDot (opened : Document.ofText text = .ok document)
    (visited : node ∈ document.root.descendants) (follows : followsDot node = true) :
    node.parentIs .fieldAccess = true := by
  obtain ⟨leaf, found, dot⟩ := (Option.any_eq_true _ _).mp ((Bool.and_eq_true ..).mp follows).1
  exact parentIs_of_dot opened visited found (eq_of_beq dot)

/-- In a field access one of the first four rules decides, whatever else asks for a type. -/
theorem classifyBy_of_fieldAccess (typed : Node → Bool) (before : Text)
    (access : node.parentIs .fieldAccess = true) :
    classifyBy typed node before ∈ [.tag, .whereClause, .patternMatch, .recordField] := by
  simp only [classifyBy, access, Bool.or_true, if_true]
  split_ifs <;> simp

/-- Rules that differ only in a field access do not differ at all. -/
theorem classifyBy_congr {typed other : Node → Bool} (before : Text)
    (agree : node.parentIs .fieldAccess = false → typed node = other node) :
    classifyBy typed node before = classifyBy other node before := by
  cases access : node.parentIs .fieldAccess with
  | true => simp only [classifyBy, access, Bool.or_true, if_true]
  | false => simp only [classifyBy, agree access]

/-- What is being typed at a position, if no type is looked for after a dot. -/
def undottedContextAt (document : Document) (position : Position) : Context :=
  match document.locate? position with
  | none => .global
  | some node => classifyBy (fun _ => false) node (document.lineBefore position)

/-- A node to which the rule for dots applies is in a field access, where an earlier rule decides,
so that the contexts at all positions are those without the rule. -/
theorem dots_look_for_fields (opened : Document.ofText text = .ok document) :
    (∀ node ∈ document.root.descendants, followsDot node = true →
      node.parentIs .fieldAccess = true ∧
        ∀ before, classify node before ∈ [.tag, .whereClause, .patternMatch, .recordField]) ∧
      ∀ position, contextAt document position = undottedContextAt document position := by
  constructor
  · intro node visited follows
    have access := parentIs_of_followsDot opened visited follows
    exact ⟨access, fun before => classifyBy_of_fieldAccess followsDot before access⟩
  · intro position
    unfold contextAt undottedContextAt
    cases located : document.locate? position with
    | none => rfl
    | some node =>
        apply classifyBy_congr
        intro outside
        apply Bool.eq_false_iff.mpr
        intro follows
        have visited := Document.locate?_visited opened located
        have access := parentIs_of_followsDot opened visited follows
        exact Bool.false_ne_true (outside.symm.trans access)

/-- A field name on the line after its dot: the line does not show the dot, but the rule for field
accesses decides all the same. -/
theorem dots_look_for_fields_below :
    ∃ document, Document.ofText ['p', ' ', '=', ' ', 'a', '.', '\n', 'b'] = .ok document ∧
      (∃ node ∈ document.root.descendants, followsDot node = true ∧
        node.parentIs .fieldAccess = true) ∧
      document.lineBefore ⟨1, 1⟩ = ['b'] ∧ contextAt document ⟨1, 1⟩ = .recordField ∧
      undottedContextAt document ⟨1, 1⟩ = .recordField := by
  have opened := Document.ofText_of_shallow (by decide)
    (show (Parse.ofText ['p', ' ', '=', ' ', 'a', '.', '\n', 'b']).tooDeep = false by
      decide +kernel)
  obtain ⟨accessed, undotted⟩ := dots_look_for_fields opened
  have dotted : (Parse.ofText ['p', ' ', '=', ' ', 'a', '.', '\n', 'b']).root.descendants.any
      followsDot = true := by
    decide +kernel
  obtain ⟨node, visited, follows⟩ := List.any_eq_true.mp dotted
  have access := (accessed node visited follows).1
  refine ⟨_, opened, ⟨node, visited, follows, access⟩, by decide +kernel, by decide +kernel, ?_⟩
  rw [← undotted ⟨1, 1⟩]
  decide +kernel

end Completion

end Scrapscript
