import Scrapscript.Proofs.Diagnostic.Validation
import Scrapscript.Proofs.Lookup

/-!
Warnings about pattern matches. A pattern match is warned of exactly if none of its cases has a
pattern that takes anything. A guard on such a case does not count, so that a match without an
unconditional case goes unnoticed if a guarded case takes anything.
-/

namespace Scrapscript

open Scrapscript.Tree (withoutTrivia isToken isError isNodeOf)

/-- The kinds of patterns that take any value. -/
def NodeKind.takesAnything : NodeKind → Bool
  | identifier | placeholder | hole => true
  | _ => false

namespace Node

/-- Whether the pattern of a case is a name, a placeholder or a hole. -/
def takesAnything (patternCase : Node) : Bool :=
  patternCase.casePattern?.any (·.kind.takesAnything)

def isGuarded (patternCase : Node) : Bool :=
  patternCase.childNodes.any (·.kind == .guard)

/-- Whether a case applies to every value. -/
def isUnconditional (patternCase : Node) : Bool :=
  patternCase.takesAnything && !patternCase.isGuarded

theorem takesAnything_of_isUnconditional {patternCase : Node}
    (unconditional : patternCase.isUnconditional = true) : patternCase.takesAnything = true :=
  ((Bool.and_eq_true ..).mp unconditional).1

variable {node inner : Node}

theorem mem_childNodes_of_firstNode? (first : node.firstNode? = some inner) :
    inner ∈ node.childNodes :=
  List.mem_of_mem_head? first

theorem exists_firstLeaf {token : Token} {later : List Tree}
    (children : node.children = .leaf token :: later) :
    ∃ leaf ∈ node.childLeaves, leaf.token = token ∧ leaf.start = node.start := by
  refine ⟨⟨token, node.start, ⟨node.kind, node.start, [], later⟩ :: node.above⟩, ?_, rfl, rfl⟩
  rw [mem_childLeaves_iff, places, children]
  exact .head _

end Node

/-- Different boundaries have different positions. -/
theorem LineIndex.eq_of_position {text : Text} {first second : Nat}
    (boundary : text.IsBoundary first) (otherBoundary : text.IsBoundary second)
    (same : (ofText text).position first = (ofText text).position second) : first = second := by
  obtain ⟨before, begins, rfl⟩ := boundary
  obtain ⟨other, otherBegins, rfl⟩ := otherBoundary
  have found := offset?_position begins
  rw [same, offset?_position otherBegins] at found
  exact (Option.some.inj found).symm

namespace Grammar

/-- A case begins with a bar and its pattern, which is not a guard. -/
theorem patternCase_begins {row : List Tree} (allowed : allows isError .patternCase row = true) :
    ∃ (bar : Token) (kind : NodeKind) (pattern rest : List Tree),
      row = .leaf bar :: .node kind pattern :: rest ∧ kind ≠ .guard := by
  have leading {places : List (Tree → Bool)}
      (filled : fills (isToken .pipe :: nodeOf isError NodeKind.isBinary :: places) row = true) :
      ∃ (bar : Token) (kind : NodeKind) (pattern rest : List Tree),
        row = .leaf bar :: .node kind pattern :: rest ∧ kind ≠ .guard := by
    obtain ⟨first, others, rfl, isBar, following⟩ := exists_of_fills_cons filled
    obtain ⟨bar, rfl, -⟩ := exists_leaf_of_isToken isBar
    obtain ⟨tree, rest, rfl, placed, -⟩ := exists_of_fills_cons following
    cases tree with
    | leaf => contradiction
    | node kind pattern =>
        refine ⟨bar, kind, pattern, rest, rfl, ?_⟩
        rintro rfl
        contradiction
  simp only [allows, caseEnds, List.any_cons, List.any_nil, Bool.or_false, Bool.or_eq_true,
    List.cons_append, List.nil_append] at allowed
  rcases allowed with (filled | filled) | (filled | filled) <;> exact leading filled

end Grammar

namespace Document

variable {document : Document} {text : Text} {node other : Node}

section

variable (opened : ofText text = .ok document)

include opened

theorem begun_of_visited (visited : node ∈ document.root.descendants) :
    Begun node.kind node.children := by
  obtain ⟨rfl, -⟩ := eq_of_ofText opened
  exact Node.holds_of_descendant (Parse.begun_root text) visited

/-- A case has a pattern, and begins with a token. -/
theorem exists_casePattern (visited : node ∈ document.root.descendants)
    (kind : node.kind = .patternCase) :
    (∃ pattern, node.casePattern? = some pattern) ∧
      ∃ leaf ∈ node.childLeaves, leaf.start = node.start := by
  have allowed := allowed_of_visited opened visited
  rw [Allowed, kind] at allowed
  obtain ⟨bar, patternKind, pattern, rest, row, unguarded⟩ := Grammar.patternCase_begins allowed
  constructor
  · have first : node.firstNode?.map Node.tree = some (.node patternKind pattern) := by
      rw [Node.tree_firstNode?, ← Tree.nodes_withoutTrivia, row]
      rfl
    obtain ⟨found, search, same⟩ := Option.map_eq_some_iff.mp first
    have other : found.kind ≠ .guard := by
      rw [(Tree.node.inj same).1]
      exact unguarded
    exact ⟨found, by simp [Node.casePattern?, search, other]⟩
  · obtain ⟨later, children⟩ :=
      Tree.exists_eq_cons (begun_of_visited opened visited (by simp [kind])) row
    obtain ⟨leaf, child, -, start⟩ := Node.exists_firstLeaf children
    exact ⟨leaf, child, start⟩

/-- A pattern match begins with a case. -/
theorem exists_firstCase (visited : node ∈ document.root.descendants)
    (kind : node.kind = .patternMatch) :
    ∃ (patternCase : Node) (later : List Tree), patternCase.StandsIn node [] later ∧
      patternCase ∈ node.cases := by
  have allowed := allowed_of_visited opened visited
  rw [Allowed, kind, Grammar.allows, Bool.and_eq_true, List.all_eq_true] at allowed
  obtain ⟨some, all⟩ := allowed
  obtain ⟨first, rest, row⟩ := List.exists_cons_of_ne_nil
    (show withoutTrivia node.children ≠ [] by simpa using some)
  have isCase := all first (row ▸ .head rest)
  obtain ⟨later, children⟩ :=
    Tree.exists_eq_cons (begun_of_visited opened visited (by simp [kind])) row
  obtain ⟨patternCase, stands, rfl⟩ :=
    Node.exists_firstNode children (Tree.isNode_of_isNodeOf isCase)
  refine ⟨patternCase, later, stands, List.mem_filter.mpr ⟨?_, isCase⟩⟩
  exact Node.mem_childNodes_of_firstNode? stands.firstNode?

theorem leaf_eq_of_start {first second : Leaf} (visited : first ∈ document.root.leaves)
    (otherVisited : second ∈ document.root.leaves) (same : first.start = second.start) :
    first = second := by
  have distinct : (document.root.leaves.map Leaf.start).Nodup := by
    rw [List.Nodup, List.pairwise_map]
    refine (adjoin_leaves opened).pairwise.imp_of_mem fun {earlier _} earlierVisited _ ordered => ?_
    have wide := leaf_width_pos opened earlierVisited
    rw [Leaf.stop] at ordered
    omega
  exact List.inj_on_of_nodup_map distinct visited otherVisited same

/-- Two pattern matches with the same start begin with the same bar, and so they are the same. -/
theorem patternMatch_eq_of_start (listed : node ∈ document.root.ofKind .patternMatch)
    (otherListed : other ∈ document.root.ofKind .patternMatch)
    (same : node.start = other.start) : node = other := by
  have begins {node : Node} (listed : node ∈ document.root.ofKind .patternMatch) :
      ∃ leaf ∈ document.root.leaves, leaf.start = node.start ∧
        ∃ patternCase later, leaf.parent? = some patternCase ∧
          patternCase.StandsIn node [] later := by
    obtain ⟨visited, kind⟩ := Node.mem_ofKind.mp listed
    obtain ⟨patternCase, later, stands, isCase⟩ := exists_firstCase opened visited kind
    obtain ⟨child, caseKind⟩ := List.mem_filter.mp isCase
    have below := Node.mem_descendants_trans (Node.mem_descendants_of_child child) visited
    obtain ⟨-, leaf, bar, start⟩ := exists_casePattern opened below (eq_of_beq caseKind)
    refine ⟨leaf, Node.mem_leaves_of_child bar below, ?_, patternCase, later,
      Place.parent?_of_row [] _ _ bar, stands⟩
    rw [start, stands.start]
    rfl
  obtain ⟨leaf, visited, start, patternCase, later, above, stands⟩ := begins listed
  obtain ⟨otherLeaf, otherVisited, otherStart, otherCase, otherLater, otherAbove, otherStands⟩ :=
    begins otherListed
  obtain rfl := leaf_eq_of_start opened visited otherVisited
    (start.trans (same.trans otherStart.symm))
  obtain rfl := Option.some.inj (above.symm.trans otherAbove)
  -- The frame around the case is the pattern match.
  have frames := stands.above.symm.trans otherStands.above
  simp only [List.cons.injEq, Frame.mk.injEq] at frames
  obtain ⟨⟨kinds, starts, -, rfl⟩, aboves⟩ := frames
  have children := stands.children.trans otherStands.children.symm
  cases node
  cases other
  simp_all

theorem patternMatch_eq_of_nodeRange (listed : node ∈ document.root.ofKind .patternMatch)
    (otherListed : other ∈ document.root.ofKind .patternMatch)
    (same : document.nodeRange node = document.nodeRange other) : node = other := by
  obtain ⟨visited, -⟩ := Node.mem_ofKind.mp listed
  obtain ⟨otherVisited, -⟩ := Node.mem_ofKind.mp otherListed
  apply patternMatch_eq_of_start opened listed otherListed
  have starts := congrArg Range.start same
  rw [(nodeRange_ends opened visited).1, (nodeRange_ends opened otherVisited).1] at starts
  have boundary := (isBoundary_of_node opened visited).1
  have otherBoundary := (isBoundary_of_node opened otherVisited).1
  obtain ⟨rfl, -⟩ := eq_of_ofText opened
  exact LineIndex.eq_of_position boundary otherBoundary starts

theorem exists_casePattern_of_patternMatch (listed : node ∈ document.root.ofKind .patternMatch) :
    node.cases.filterMap Node.casePattern? ≠ [] := by
  obtain ⟨visited, kind⟩ := Node.mem_ofKind.mp listed
  obtain ⟨patternCase, later, -, isCase⟩ := exists_firstCase opened visited kind
  obtain ⟨child, caseKind⟩ := List.mem_filter.mp isCase
  have below := Node.mem_descendants_trans (Node.mem_descendants_of_child child) visited
  obtain ⟨⟨pattern, found⟩, -⟩ := exists_casePattern opened below (eq_of_beq caseKind)
  exact List.ne_nil_of_mem (List.mem_filterMap.mpr ⟨patternCase, isCase, found⟩)

end

theorem any_isCatchAll (node : Node) :
    (node.cases.filterMap Node.casePattern?).any Check.isCatchAll =
      node.cases.any Node.takesAnything := by
  have same (pattern : Node) : Check.isCatchAll pattern = pattern.kind.takesAnything := by
    unfold Check.isCatchAll
    cases pattern.kind <;> rfl
  rw [List.any_filterMap]
  congr 1
  funext patternCase
  cases found : patternCase.casePattern? with
  | none => simp [Node.takesAnything, found]
  | some pattern => simp [Node.takesAnything, found, same]

/-- The pattern matches without a pattern that takes anything, in document order, are those that
are warned of. -/
theorem rangesOf_exhaustiveness (opened : ofText text = .ok document) :
    rangesOf "W0001" (findings text) =
      ((document.root.ofKind .patternMatch).filter fun node =>
        !node.cases.any Node.takesAnything).map document.nodeRange := by
  have known : (Check.total Settings.exhaustiveness Check.exhaustiveness, .nonExhaustive) ∈
      Check.all.zip Check.codes := by simp [Check.all, Check.codes]
  refine (rangesOf_findings opened known).trans (Check.ranges_filterMap fun node listed => ?_)
  have some := exists_casePattern_of_patternMatch opened listed
  simp only [any_isCatchAll, List.isEmpty_eq_false_iff.mpr some]
  cases node.cases.any Node.takesAnything <;> rfl

end Document

/-- Without a limit, a report has all findings of a code that its settings permit. -/
theorem rangesOf_diagnose {text : Text} {settings : Settings} {code : String}
    (permitted : settings.permits (some code) = true)
    (room : (findings text).length ≤ settings.problemLimit) :
    rangesOf code (diagnose text settings) = rangesOf code (findings text) := by
  have all : ((findings text).filter (settings.permits ·.code)).length ≤ settings.problemLimit :=
    Nat.le_trans (List.length_filter_le _ _) room
  rw [rangesOf, rangesOf, diagnose_eq_take_filter, List.take_of_length_le all, List.filter_filter]
  congr 1
  refine List.filter_congr fun diagnostic _ => ?_
  cases found : diagnostic.code == some code with
  | false => rfl
  | true => simp [eq_of_beq found, permitted]

/-- With the check switched on and no limit, the pattern matches that are warned of are those none
of whose cases has a pattern that takes anything. Such a match has no unconditional case. The
converse holds of a pattern match exactly if it has an unconditional case or none that takes
anything: a guard is all that can be overlooked. -/
theorem exhaustiveness_warns_of_patterns {text : Text} {document : Document}
    (opened : Document.ofText text = .ok document) (settings : Settings)
    (checked : settings.exhaustiveness = true)
    (room : (findings text).length ≤ settings.problemLimit) :
    rangesOf "W0001" (diagnose text settings) =
        ((document.root.ofKind .patternMatch).filter fun node =>
          !node.cases.any Node.takesAnything).map document.nodeRange ∧
      ∀ node ∈ document.root.ofKind .patternMatch,
        (document.nodeRange node ∈ rangesOf "W0001" (diagnose text settings) ↔
          ¬∃ patternCase ∈ node.cases, patternCase.takesAnything = true) ∧
        (document.nodeRange node ∈ rangesOf "W0001" (diagnose text settings) →
          ¬∃ patternCase ∈ node.cases, patternCase.isUnconditional = true) ∧
        ((document.nodeRange node ∈ rangesOf "W0001" (diagnose text settings) ↔
            ¬∃ patternCase ∈ node.cases, patternCase.isUnconditional = true) ↔
          ((∃ patternCase ∈ node.cases, patternCase.takesAnything = true) →
            ∃ patternCase ∈ node.cases, patternCase.isUnconditional = true)) := by
  have ranges : rangesOf "W0001" (diagnose text settings) =
      ((document.root.ofKind .patternMatch).filter fun node =>
        !node.cases.any Node.takesAnything).map document.nodeRange :=
    (rangesOf_diagnose (show settings.permits (some "W0001") = true from checked) room).trans
      (Document.rangesOf_exhaustiveness opened)
  refine ⟨ranges, fun node listed => ?_⟩
  have warned : document.nodeRange node ∈ rangesOf "W0001" (diagnose text settings) ↔
      ¬∃ patternCase ∈ node.cases, patternCase.takesAnything = true := by
    have overlooked : (¬∃ patternCase ∈ node.cases, patternCase.takesAnything = true) ↔
        (!node.cases.any Node.takesAnything) = true := by
      rw [← List.any_eq_true, Bool.not_eq_true, Bool.not_eq_true']
    rw [ranges, List.mem_map, overlooked]
    constructor
    · rintro ⟨other, kept, same⟩
      obtain ⟨otherListed, missed⟩ := List.mem_filter.mp kept
      obtain rfl := Document.patternMatch_eq_of_nodeRange opened otherListed listed same
      exact missed
    · intro missed
      exact ⟨node, List.mem_filter.mpr ⟨listed, missed⟩, rfl⟩
  have narrower : (∃ patternCase ∈ node.cases, patternCase.isUnconditional = true) →
      ∃ patternCase ∈ node.cases, patternCase.takesAnything = true := by
    rintro ⟨patternCase, isCase, unconditional⟩
    exact ⟨patternCase, isCase, Node.takesAnything_of_isUnconditional unconditional⟩
  rw [warned]
  refine ⟨Iff.rfl, mt narrower, ?_⟩
  rw [not_iff_not]
  exact ⟨Iff.mp, fun wider => ⟨wider, narrower⟩⟩

/-- The inner match of `| x -> | 1 -> x` is warned of, and the outer one is not. -/
theorem exhaustiveness_warns_of_patterns_nested :
    (findings ['|', 'x', '-', '>', '|', '1', '-', '>', 'x']).length ≤
        Settings.default.problemLimit ∧
      rangesOf "W0001" (diagnose ['|', 'x', '-', '>', '|', '1', '-', '>', 'x'] .default) =
        [Range.between ⟨0, 4⟩ ⟨0, 9⟩] := by
  have opened := Document.ofText_of_shallow (by decide)
    (show (Parse.ofText ['|', 'x', '-', '>', '|', '1', '-', '>', 'x']).tooDeep = false by
      decide +kernel)
  have room : (findings ['|', 'x', '-', '>', '|', '1', '-', '>', 'x']).length ≤
      Settings.default.problemLimit := by
    decide +kernel
  obtain ⟨ranges, -⟩ := exhaustiveness_warns_of_patterns opened .default rfl room
  refine ⟨room, ranges.trans ?_⟩
  decide +kernel

/-- The only case of `| x ? y -> x` depends on its guard, and nothing is reported. -/
theorem exhaustiveness_overlooks_guard :
    ∃ document node,
      Document.ofText ['|', 'x', ' ', '?', ' ', 'y', ' ', '-', '>', ' ', 'x'] = .ok document ∧
      node ∈ document.root.ofKind .patternMatch ∧
      (¬∃ patternCase ∈ node.cases, patternCase.isUnconditional = true) ∧
      diagnose ['|', 'x', ' ', '?', ' ', 'y', ' ', '-', '>', ' ', 'x'] .default = [] := by
  have opened := Document.ofText_of_shallow (by decide)
    (show (Parse.ofText ['|', 'x', ' ', '?', ' ', 'y', ' ', '-', '>', ' ', 'x']).tooDeep = false by
      decide +kernel)
  have found : ((Parse.ofText ['|', 'x', ' ', '?', ' ', 'y', ' ', '-', '>', ' ', 'x']).root.ofKind
      .patternMatch).any (!·.cases.any Node.isUnconditional) = true := by
    decide +kernel
  obtain ⟨node, listed, conditional⟩ := List.any_eq_true.mp found
  refine ⟨_, node, opened, listed, ?_, by decide +kernel⟩
  rwa [← List.any_eq_true, Bool.not_eq_true, ← Bool.not_eq_true']

end Scrapscript
