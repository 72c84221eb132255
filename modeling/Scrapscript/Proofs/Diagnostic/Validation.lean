import Scrapscript.Proofs.Composition
import Scrapscript.Proofs.Diagnostic.Pipeline
import Scrapscript.Proofs.Grammar.Separated
import Scrapscript.Proofs.Request

/-!
What the checks add to the grammar. The parser accepts more than the language does: a where clause
with any binding, a field without a value and a list with empty slots. Here the strict forms are
stated on rows of children, and a report on a text without syntax errors is shown to name exactly
the nodes that are not of these forms.
-/

namespace Scrapscript

open Scrapscript.Tree (withoutTrivia isToken isTokenOf isNodeOf isError nodes)

namespace Tree

/-- Whether what follows the semicolon of a where clause declares a name. -/
def bindsName (clause : Tree) : Bool :=
  (nodes clause.children).tail.head?.any declaresName

end Tree

namespace Grammar

theorem isNode_of_isBinding {tree : Tree} (bound : isBinding noGap tree = true) :
    tree.isNode = true := by
  cases tree with
  | leaf => contradiction
  | node => rfl

/-- Elements with a comma between any two of them. -/
def alternates : List Tree → Bool
  | [] => false
  | [element] => element.isNodeOf NodeKind.isElement
  | element :: comma :: rest =>
      element.isNodeOf NodeKind.isElement && comma.isToken .comma && alternates rest

/-- A list without empty slots: brackets with nothing or with alternating elements and commas
between them. -/
def isStrictList (row : List Tree) : Bool :=
  collects (isToken .openBracket) (fun _ => true) (isToken .closeBracket) row
    && (row.tail.dropLast.isEmpty || alternates row.tail.dropLast)

end Grammar

namespace Check

/-! What each check asks of a node, read off its row of children. -/

theorem bindsName_eq (pattern : Node) : bindsName pattern = pattern.tree.isTypedName :=
  pattern.isTypedName_tree.symm

theorem isBinding_eq (binding : Node) :
    isBinding binding =
      (binding.tree.declaresName && binding.secondNode?.any (·.kind != .error)) := by
  have pattern : binding.firstNode?.any bindsName =
      (nodes binding.children).head?.any Tree.isTypedName := by
    rw [← binding.tree_firstNode?, Option.any_map]
    exact congrArg (Option.any · _) (funext bindsName_eq)
  rw [isBinding, pattern]
  cases kind : binding.kind <;> simp [Node.tree, kind, Tree.declaresName]

/-- The value of a declaration in a where clause is never missing where nothing is wrong. -/
theorem isBinding_of_allowed {binding : Node}
    (bound : Grammar.isBinding Grammar.noGap binding.tree = true) :
    isBinding binding = binding.tree.declaresName := by
  rw [isBinding_eq]
  by_cases declaration : binding.kind = .declaration
  · rw [Node.tree, declaration, Grammar.isBinding] at bound
    obtain ⟨left, symbol, right, row, leftLevel, -, rightLevel⟩ :=
      Grammar.exists_of_fills_joined bound
    obtain ⟨value, second, rfl⟩ := Node.exists_secondNode row (Tree.isNode_of_isNodeOf leftLevel)
      (Tree.isNode_of_isNodeOf rightLevel)
    have proper : value.kind ≠ .error := by
      intro error
      rw [Node.tree, error] at rightLevel
      contradiction
    simp [second, proper]
  · have different : binding.tree.declaresName = false := by
      rw [Node.tree]
      cases kind : binding.kind <;> first | rfl | contradiction
    rw [different, Bool.false_and]

theorem accepts_whereClause {node : Node}
    (allowed : Grammar.allows Grammar.noGap .whereClause (withoutTrivia node.children) = true) :
    ((node.tokenOf? .semicolon).isSome && node.secondNode?.any isBinding) =
      node.tree.bindsName := by
  obtain ⟨left, middle, binding, row, leftLevel, isSemicolon, bound⟩ :=
    Grammar.exists_of_fills_three allowed
  have semicolon : (node.tokenOf? .semicolon).isSome = true := by
    rw [node.isSome_tokenOf?, ← Tree.any_isToken_withoutTrivia rfl, row]
    simp [isSemicolon]
  obtain ⟨symbol, rfl, -⟩ := Grammar.exists_leaf_of_isToken isSemicolon
  obtain ⟨second, found, rfl⟩ := Node.exists_secondNode row
    (Tree.isNode_of_isNodeOf (Grammar.isNodeOf_of_nodeOf leftLevel))
    (Grammar.isNode_of_isBinding bound)
  have binds : node.tree.bindsName = second.tree.declaresName := by
    rw [Tree.bindsName]
    show (nodes node.children).tail.head?.any _ = _
    rw [← node.tree_secondNode?, found]
    rfl
  rw [semicolon, found, binds, Bool.true_and, Option.any_some, isBinding_of_allowed bound]

/-- A field has a value if it has an equals sign. -/
theorem accepts_recordField {node : Node}
    (allowed : Grammar.allows Grammar.noGap .recordField (withoutTrivia node.children) = true) :
    2 ≤ node.childNodes.length ↔ node.children.any (isToken .equals) = true := by
  rw [node.length_childNodes, ← Tree.nodes_withoutTrivia,
    ← Tree.any_isToken_withoutTrivia rfl]
  rcases (Bool.or_eq_true ..).mp allowed with short | long
  · obtain ⟨name, row, isName⟩ := Grammar.exists_of_fills_one short
    have noToken : name.isToken .equals = false := by
      cases name with
      | leaf => contradiction
      | node => rfl
    simp [row, Tree.nodes_cons, Tree.isNode_of_isNodeOf isName, noToken]
  · obtain ⟨name, symbol, value, row, isName, isEquals, leveled⟩ :=
      Grammar.exists_of_fills_three long
    have isValue := Tree.isNode_of_isNodeOf (Grammar.isNodeOf_of_nodeOf leveled)
    obtain ⟨equals, rfl, -⟩ := Grammar.exists_leaf_of_isToken isEquals
    simp [row, Tree.nodes_cons, Tree.isNode_of_isNodeOf isName, isValue, isEquals]

/-- The role of an item between the brackets of a list. -/
def itemPart (item : Tree) : ListPart :=
  if item.isToken .comma then .comma else .other

theorem separatorProblem?_other (first : ListPart) (parts : List ListPart) :
    separatorProblem? (first :: .other :: parts) = separatorProblem? parts := by
  cases first <;> rfl

theorem itemPart_cases {item : Tree}
    (part : item.isToken .comma = true ∨ item.isNodeOf NodeKind.isElement = true) :
    itemPart item = .comma ∧ item.isToken .comma = true ∧
        item.isNodeOf NodeKind.isElement = false ∨
      itemPart item = .other ∧ item.isToken .comma = false ∧
        item.isNodeOf NodeKind.isElement = true := by
  cases item with
  | leaf token =>
      have comma : Tree.isToken .comma (.leaf token) = true := part.resolve_right Bool.false_ne_true
      exact .inl ⟨if_pos comma, comma, rfl⟩
  | node kind children =>
      have element := part.resolve_left Bool.false_ne_true
      exact .inr ⟨rfl, rfl, element⟩

/-- After a comma the items have to go on with an element, and with a comma after it if there are
more. -/
theorem separatorProblem?_after_comma : (items : List Tree) →
    (∀ item ∈ items, item.isToken .comma = true ∨ item.isNodeOf NodeKind.isElement = true) →
    Grammar.commasBetween items = true →
    (separatorProblem? (.comma :: (items.map itemPart ++ [.closer])) = none ↔
      Grammar.alternates items = true)
  | [], _, _ => by simp [separatorProblem?, Grammar.alternates]
  | [item], parts, _ => by
      rcases itemPart_cases (parts item (.head _)) with ⟨part, -, noElement⟩ | ⟨part, -, element⟩
      · simp [part, separatorProblem?, Grammar.alternates, noElement]
      · simp [part, separatorProblem?, Grammar.alternates, element]
  | first :: second :: rest, parts, separated => by
      rw [Grammar.commasBetween, Bool.and_eq_true] at separated
      rcases itemPart_cases (parts first (.head _)) with
        ⟨part, -, noElement⟩ | ⟨part, noComma, element⟩
      · simp [part, separatorProblem?, Grammar.alternates, noElement]
      · have comma : second.isToken .comma = true := by simpa [noComma] using separated.1
        have later := separatorProblem?_after_comma rest
          (fun item listed => parts item (.tail _ (.tail _ listed)))
          (Grammar.commasBetween_tail separated.2)
        have secondPart : itemPart second = .comma := if_pos comma
        simpa [part, secondPart, separatorProblem?_other, Grammar.alternates, element, comma]
          using later

/-- After the opening bracket there may be nothing. -/
theorem separatorProblem?_after_opener {items : List Tree}
    (parts : ∀ item ∈ items,
      item.isToken .comma = true ∨ item.isNodeOf NodeKind.isElement = true)
    (separated : Grammar.commasBetween items = true) :
    separatorProblem? (.opener :: (items.map itemPart ++ [.closer])) = none ↔
      items = [] ∨ Grammar.alternates items = true := by
  cases items with
  | nil => simp [separatorProblem?]
  | cons first rest =>
      rcases itemPart_cases (parts first (.head _)) with ⟨part, -, noElement⟩ | ⟨part, -, -⟩
      · have different : Grammar.alternates (first :: rest) = false := by
          cases rest with
          | nil => exact noElement
          | cons => simp [Grammar.alternates, noElement]
        simp [part, separatorProblem?, different]
      · rw [← separatorProblem?_after_comma _ parts separated]
        simp [part, separatorProblem?_other]

theorem filterMap_listPart?_withoutTrivia (row : List Tree) :
    (withoutTrivia row).filterMap listPart? = row.filterMap listPart? := by
  rw [withoutTrivia, List.filterMap_filter]
  apply List.filterMap_congr
  intro tree _
  cases tree with
  | node => simp [Tree.isTrivia]
  | leaf token =>
      cases kind : token.kind <;>
        simp [Tree.isTrivia, Token.isTrivia, TokenKind.isTrivia, listPart?, kind]

theorem listPart?_item {item : Tree}
    (part : item.isToken .comma = true ∨ item.isNodeOf NodeKind.isElement = true) :
    listPart? item = some (itemPart item) := by
  cases item with
  | leaf token =>
      have comma : Tree.isToken .comma (.leaf token) = true := part.resolve_right Bool.false_ne_true
      have kind : token.kind = .comma := eq_of_beq comma
      simp [listPart?, kind, itemPart, comma]
  | node kind children =>
      have element := part.resolve_left Bool.false_ne_true
      cases kind <;> first | rfl | contradiction

/-- No separator of a list is reported exactly if the list is of the strict form. -/
theorem accepts_list {node : Node}
    (allowed : Grammar.allows Grammar.noGap .list (withoutTrivia node.children) = true)
    (separated : Grammar.separates .list (withoutTrivia node.children) = true) :
    separatorProblem? (node.children.filterMap listPart?) = none ↔
      Grammar.isStrictList (withoutTrivia node.children) = true := by
  obtain ⟨opening, items, closing, row, opens, closes, parts⟩ := Grammar.collection_parts allowed
  rw [← filterMap_listPart?_withoutTrivia]
  rw [row] at separated ⊢
  have between : Grammar.commasBetween items = true := by simpa [Grammar.separates] using separated
  have middle : items.filterMap listPart? = items.map itemPart := by
    rw [← List.filterMap_eq_map]
    apply List.filterMap_congr
    intro item listed
    exact listPart?_item (parts item listed)
  have roles : (.leaf opening :: (items ++ [.leaf closing])).filterMap listPart? =
      .opener :: (items.map itemPart ++ [.closer]) := by
    simp [listPart?, opens, closes, middle]
  rw [roles, separatorProblem?_after_opener parts between]
  simp [Grammar.isStrictList, Grammar.collects, isToken, isTokenOf, opens, closes]

/-- A function or a pattern case without an arrow is a case with an error in the arrow's place. -/
theorem exists_error_of_no_arrow {node : Node} (allowed : Allowed node.kind node.children)
    (checked : node.kind = .function ∨ node.kind = .patternCase)
    (noArrow : node.children.any (isToken .arrow) = false) :
    node.kind = .patternCase ∧ ∃ error ∈ node.childNodes, error.kind = .error := by
  have missing {places : List (Tree → Bool)}
      (filled : Grammar.fills places (withoutTrivia node.children) = true) :
      isToken .arrow ∉ places := by
    intro listed
    obtain ⟨arrow, among, isArrow⟩ := Grammar.exists_filler filled listed
    rw [← Tree.any_isToken_withoutTrivia rfl] at noArrow
    exact absurd isArrow (List.any_eq_false.mp noArrow arrow among)
  have gap {places : List (Tree → Bool)}
      (filled : Grammar.fills places (withoutTrivia node.children) = true)
      (listed : isError ∈ places) : ∃ error ∈ node.childNodes, error.kind = .error := by
    obtain ⟨error, among, wrong⟩ := Grammar.exists_filler filled listed
    have child : error ∈ node.childNodes.map Node.tree := by
      rw [node.map_childNodes, List.mem_filter]
      exact ⟨List.mem_of_mem_filter among, Tree.isNode_of_isNodeOf wrong⟩
    obtain ⟨found, listed, rfl⟩ := List.mem_map.mp child
    exact ⟨found, listed, eq_of_beq wrong⟩
  rcases checked with function | patternCase
  · rw [Allowed, function] at allowed
    exact absurd (by simp) (missing allowed)
  · refine ⟨patternCase, ?_⟩
    rw [Allowed, patternCase] at allowed
    simp only [Grammar.allows, Grammar.caseEnds, List.any_cons, List.any_nil, Bool.or_false,
      Bool.or_eq_true] at allowed
    rcases allowed with (plain | guarded) | (plain | guarded)
    · exact absurd (by simp) (missing plain)
    · exact absurd (by simp) (missing guarded)
    · exact gap plain (by simp)
    · exact gap guarded (by simp)

/-- The reports of a check in terms of the nodes that it reports. -/
theorem ranges_filterMap {checked : List Node} {report : Node → Option Diagnostic}
    {offends : Node → Bool} {place : Node → Range}
    (agree : ∀ node ∈ checked,
      (report node).map Diagnostic.range = if offends node then some (place node) else none) :
    (checked.filterMap report).map Diagnostic.range = (checked.filter offends).map place := by
  rw [List.map_filterMap, ← List.filterMap_eq_map, List.filterMap_filter]
  apply List.filterMap_congr
  intro node listed
  exact agree node listed

theorem filter_code {check : Check} {code : Code} (known : (check, code) ∈ all.zip codes)
    (document : Document) (target : Code) :
    (check.report document).filter (·.code == some target.label) =
      if code = target then check.report document else [] := by
  by_cases same : code = target
  · rw [if_pos same, List.filter_eq_self]
    intro diagnostic reported
    simp [code_report known reported, same]
  · rw [if_neg same, List.filter_eq_nil_iff]
    intro diagnostic reported
    simpa [code_report known reported, Code.label_inj] using same

end Check

namespace Document

/-- The findings with the code of a check are what this check reports. -/
theorem filter_findings {text : Text} {document : Document} (opened : ofText text = .ok document)
    {check : Check} {code : Code} (known : (check, code) ∈ Check.all.zip Check.codes) :
    (findings text).filter (·.code == some code.label) = check.report document := by
  have targeted := (List.of_mem_zip known).2
  have different : ∀ code ∈ Check.codes, "E0001" ≠ code.label := by decide
  have syntactic : document.syntaxErrors.filter (·.code == some code.label) = [] := by
    rw [List.filter_eq_nil_iff]
    intro diagnostic reported
    simpa [code_syntaxErrors reported] using different code targeted
  have problems : document.problems Settings.default =
      (Check.all.zip Check.codes).flatMap fun known => known.1.report document := rfl
  rw [findings_eq opened, List.filter_append, syntactic, List.nil_append, problems,
    List.filter_flatMap,
    List.flatMap_congr fun other otherKnown => Check.filter_code otherKnown document code]
  simp only [Check.all, Check.codes, List.zip_cons_cons, List.zip_nil_right, List.mem_cons,
    Prod.mk.injEq, List.not_mem_nil, or_false] at known
  rcases known with ⟨rfl, rfl⟩ | ⟨rfl, rfl⟩ | ⟨rfl, rfl⟩ | ⟨rfl, rfl⟩ | ⟨rfl, rfl⟩ | ⟨rfl, rfl⟩ <;>
    simp [Check.all, Check.codes]

end Document

/-- The ranges of the diagnostics with a code, in the order of the report. -/
def rangesOf (code : String) (report : List Diagnostic) : List Range :=
  (report.filter (·.code == some code)).map Diagnostic.range

theorem rangesOf_findings {text : Text} {document : Document}
    (opened : Document.ofText text = .ok document) {enabled : Settings → Bool}
    {find : Document → List Diagnostic} {code : Code}
    (known : (Check.total enabled find, code) ∈ Check.all.zip Check.codes) :
    rangesOf code.label (findings text) = (find document).map Diagnostic.range := by
  rw [rangesOf, Document.filter_findings opened known]
  rfl
/-- Settings that permit everything only cut off what is found. -/
theorem diagnose_eq_take {settings : Settings} (exhaustiveness : settings.exhaustiveness = true)
    (typeChecking : settings.typeChecking = true) (validation : settings.validation = true)
    (text : Text) : diagnose text settings = (findings text).take settings.problemLimit := by
  have permitted :
      settings.permits = (Settings.default.withLimit settings.problemLimit).permits := by
    funext code
    unfold Settings.permits
    split <;> first | rfl | assumption
  rw [← diagnose_withLimit, diagnose_eq_take_filter, diagnose_eq_take_filter, permitted]
  rfl

section

variable {text : Text} {document : Document}

namespace Document

variable (opened : ofText text = .ok document) (clean : (Parse.ofText text).errors = [])

include opened clean

/-- The nodes of a kind in a document without errors have no gaps. -/
theorem allows_of_clean {node : Node} {kind : NodeKind}
    (listed : node ∈ document.root.ofKind kind) :
    Grammar.allows Grammar.noGap kind (withoutTrivia node.children) = true ∧
      node.hasError = false := by
  obtain ⟨rfl, -⟩ := eq_of_ofText opened
  obtain ⟨visited, same⟩ := List.mem_filter.mp listed
  obtain rfl : node.kind = kind := eq_of_beq same
  have sound : (Parse.ofText text).root.hasError = false :=
    Bool.eq_false_iff.mpr (mt (Parse.hasError_root text).mp (not_not_intro clean))
  have soundNode := Node.clean_of_descendant sound visited
  exact ⟨(Node.holds_of_descendant (Parse.grouped_root text) visited soundNode).1, soundNode⟩

theorem rangesOf_whereClauses :
    rangesOf "E0003" (findings text) =
      ((document.root.ofKind .whereClause).filter (! ·.tree.bindsName)).map fun clause =>
        document.nodeRange (clause.secondNode?.getD clause) := by
  have known : (Check.total Settings.validation Check.whereClauses, .malformedWhere) ∈
      Check.all.zip Check.codes := by simp [Check.all, Check.codes]
  refine (rangesOf_findings opened known).trans (Check.ranges_filterMap fun node visited => ?_)
  rw [Check.accepts_whereClause (allows_of_clean opened clean visited).1]
  cases node.tree.bindsName <;> rfl

theorem rangesOf_recordFields :
    rangesOf "E0004" (findings text) =
      ((document.root.ofKind .recordField).filter fun field =>
        !field.children.any (isToken .equals)).map document.nodeRange := by
  have known : (Check.total Settings.validation Check.recordFields, .fieldWithoutValue) ∈
      Check.all.zip Check.codes := by simp [Check.all, Check.codes]
  refine (rangesOf_findings opened known).trans (Check.ranges_filterMap fun node visited => ?_)
  have valued := Check.accepts_recordField (allows_of_clean opened clean visited).1
  cases assigned : node.children.any (isToken .equals) with
  | true => simp [valued.mpr assigned]
  | false =>
      have short : ¬2 ≤ node.childNodes.length := by simp [valued, assigned]
      simp [short, Diagnostic.error]

theorem rangesOf_listSeparators :
    rangesOf "E0005" (findings text) =
      ((document.root.ofKind .list).filter fun list =>
        !Grammar.isStrictList (withoutTrivia list.children)).map document.nodeRange := by
  have known : (Check.total Settings.validation Check.listSeparators, .listSeparator) ∈
      Check.all.zip Check.codes := by simp [Check.all, Check.codes]
  refine (rangesOf_findings opened known).trans (Check.ranges_filterMap fun node listed => ?_)
  obtain ⟨allowed, sound⟩ := allows_of_clean opened clean listed
  have separated : Grammar.separates .list (withoutTrivia node.children) = true := by
    obtain ⟨visited, same⟩ := List.mem_filter.mp listed
    obtain ⟨rfl, -⟩ := eq_of_ofText opened
    exact Parse.separates_list visited (eq_of_beq same) sound
  have strict := Check.accepts_list allowed separated
  cases found : Check.separatorProblem? (node.children.filterMap Check.listPart?) with
  | none => simp [strict.mp found]
  | some message =>
      have loose : Grammar.isStrictList (withoutTrivia node.children) = false := by
        rw [← Bool.not_eq_true, ← strict, found]
        simp
      simp [loose, Diagnostic.error]

theorem syntaxErrors_of_clean : document.syntaxErrors = [] := by
  obtain ⟨rfl, -⟩ := eq_of_ofText opened
  have counted := Parse.length_errors text
  rw [clean, List.length_nil] at counted
  exact List.map_eq_nil_iff.mpr (List.length_eq_zero_iff.mp counted.symm)

omit clean

/-- Where an arrow is reported missing, there is a syntax error. -/
theorem syntaxErrors_of_arrows {enabled : Settings → Bool} {diagnostic : Diagnostic}
    (reported : diagnostic ∈ Check.report ⟨enabled, Check.arrows⟩ document) :
    document.syntaxErrors ≠ [] := by
  obtain ⟨node, visited, lacks, -⟩ := Check.exists_of_mem_arrows reported
  rw [Check.lacksArrow, Bool.and_eq_true, Bool.or_eq_true, ← Option.not_isSome,
    node.isSome_tokenOf?] at lacks
  obtain ⟨-, error, child, kind⟩ := Check.exists_error_of_no_arrow
    (allowed_of_visited opened visited) (lacks.1.imp eq_of_beq eq_of_beq) (by simpa using lacks.2)
  have below := Node.mem_descendants_trans (Node.mem_descendants_of_child child) visited
  apply List.ne_nil_of_mem
  exact List.mem_map_of_mem (List.mem_filter.mpr ⟨below, by simp [kind]⟩)

/-- A report that lacks an arrow has a syntax error before it. -/
theorem syntaxErrors_of_withoutArrow {diagnostic : Diagnostic} (found : diagnostic ∈ findings text)
    (code : diagnostic.code = some "E0006") : document.syntaxErrors ≠ [] := by
  have known : (⟨Settings.validation, Check.arrows⟩, .withoutArrow) ∈
      Check.all.zip Check.codes := by simp [Check.all, Check.codes]
  have reported : diagnostic ∈ (findings text).filter (·.code == some Code.withoutArrow.label) :=
    List.mem_filter.mpr ⟨found, by simp [code, Code.label]⟩
  rw [filter_findings opened known] at reported
  exact syntaxErrors_of_arrows opened reported

end Document

/-- Errors of syntax come first in a report, so that no limit cuts them off before the arrow. -/
theorem exists_syntaxError_of_withoutArrow {settings : Settings} {diagnostic : Diagnostic}
    (reported : diagnostic ∈ diagnose text settings) (code : diagnostic.code = some "E0006") :
    ∃ other ∈ diagnose text settings, other.code = some "E0001" := by
  rw [diagnose_eq_take_filter] at reported ⊢
  have found := List.mem_of_mem_filter (List.mem_of_mem_take reported)
  cases opened : Document.ofText text with
  | error failure =>
      obtain rfl : diagnostic = _ := by simpa [findings, opened] using found
      simp [Diagnostic.error, Code.label] at code
  | ok document =>
      obtain ⟨first, others, syntactic⟩ :=
        List.exists_cons_of_ne_nil (Document.syntaxErrors_of_withoutArrow opened found code)
      have listed : first ∈ document.syntaxErrors := syntactic ▸ .head others
      have firstCode := Document.code_syntaxErrors listed
      have permitted : settings.permits first.code = true := by rw [firstCode]; rfl
      refine ⟨first, ?_, firstCode⟩
      cases limit : settings.problemLimit with
      | zero => simp [limit] at reported
      | succ => simp [findings_eq opened, syntactic, permitted]

end

/-- The checks complete the grammar. If a text is not too large to open and has no syntax errors, a
report that leaves nothing out names, in document order, the where clauses that bind no name, the
fields without a value and the lists with an empty slot, each once; and nothing in it is a syntax
error or a missing arrow. An arrow is reported missing only beside a syntax error: functions always
have theirs, and a pattern case without one has an error node in its place. -/
theorem checks_complete_grammar (text : Text) :
    (text.bytes < UInt32.size → (Parse.ofText text).errors = [] →
      ∃ document report, Document.ofText text = .ok document ∧
        (∀ settings : Settings, settings.exhaustiveness = true → settings.typeChecking = true →
          settings.validation = true → report.length ≤ settings.problemLimit →
          diagnose text settings = report) ∧
        rangesOf "E0003" report =
          ((document.root.ofKind .whereClause).filter (! ·.tree.bindsName)).map (fun clause =>
            document.nodeRange (clause.secondNode?.getD clause)) ∧
        rangesOf "E0004" report =
          ((document.root.ofKind .recordField).filter fun field =>
            !field.children.any (isToken .equals)).map document.nodeRange ∧
        rangesOf "E0005" report =
          ((document.root.ofKind .list).filter fun list =>
            !Grammar.isStrictList (withoutTrivia list.children)).map document.nodeRange ∧
        ∀ diagnostic ∈ report,
          diagnostic.code ≠ some "E0001" ∧ diagnostic.code ≠ some "E0006") ∧
    (∀ settings : Settings,
      (∃ diagnostic ∈ diagnose text settings, diagnostic.code = some "E0006") →
        ∃ diagnostic ∈ diagnose text settings, diagnostic.code = some "E0001") ∧
    ∀ document, Document.ofText text = .ok document → ∀ node ∈ document.root.descendants,
      (node.kind = .function → node.children.any (isToken .arrow) = true) ∧
      (node.kind = .patternCase → node.children.any (isToken .arrow) = false →
        ∃ error ∈ node.childNodes, error.kind = .error) := by
  refine ⟨fun small clean => ?_, ?_, ?_⟩
  · have opened := Document.ofText_of_shallow small (Parse.shallow_of_clean clean)
    generalize (⟨text, .ofText text, .ofText text⟩ : Document) = document at opened
    refine ⟨document, findings text, opened, ?_, ?_, ?_, ?_, ?_⟩
    · intro settings exhaustiveness typeChecking validation room
      rw [diagnose_eq_take exhaustiveness typeChecking validation, List.take_of_length_le room]
    · exact Document.rangesOf_whereClauses opened clean
    · exact Document.rangesOf_recordFields opened clean
    · exact Document.rangesOf_listSeparators opened clean
    · intro diagnostic found
      have syntactic := Document.syntaxErrors_of_clean opened clean
      refine ⟨?_, fun code =>
        absurd syntactic (Document.syntaxErrors_of_withoutArrow opened found code)⟩
      rw [findings_eq opened, syntactic, List.nil_append] at found
      simpa [Diagnostic.isSyntaxError, Code.label] using Document.isSyntaxError_problems found
  · rintro settings ⟨diagnostic, reported, code⟩
    exact exists_syntaxError_of_withoutArrow reported code
  · intro document opened node visited
    have allowed := Document.allowed_of_visited opened visited
    constructor
    · intro function
      by_cases arrow : node.children.any (isToken .arrow) = true
      · exact arrow
      · have noArrow := Bool.eq_false_iff.mpr arrow
        have different := (Check.exists_error_of_no_arrow allowed (.inl function) noArrow).1
        rw [function] at different
        contradiction
    · intro patternCase noArrow
      exact (Check.exists_error_of_no_arrow allowed (.inr patternCase) noArrow).2

/-- A where clause that binds no name, a list with an empty slot and a field without a value. -/
theorem checks_complete_grammar_loose :
    (Parse.ofText ['[', ',', '1', ']', ' ', ';', ' ', '\x7b', 'a', '\x7d']).errors = [] ∧
      ∃ report limit,
        diagnose ['[', ',', '1', ']', ' ', ';', ' ', '\x7b', 'a', '\x7d']
          (Settings.default.withLimit limit) = report ∧
        rangesOf "E0003" report = [.between ⟨0, 7⟩ ⟨0, 10⟩] ∧
        rangesOf "E0004" report = [.between ⟨0, 8⟩ ⟨0, 9⟩] ∧
        rangesOf "E0005" report = [.between ⟨0, 0⟩ ⟨0, 4⟩] := by
  have clean :
      (Parse.ofText ['[', ',', '1', ']', ' ', ';', ' ', '\x7b', 'a', '\x7d']).errors = [] := by
    decide +kernel
  obtain ⟨document, report, opened, complete, clauses, fields, lists, -⟩ :=
    (checks_complete_grammar _).1 (by decide) clean
  refine ⟨clean, report, report.length, complete _ rfl rfl rfl (Nat.le_refl _), ?_, ?_, ?_⟩
  · rw [clauses, (Document.eq_of_ofText opened).1]
    decide +kernel
  · rw [fields, (Document.eq_of_ofText opened).1]
    decide +kernel
  · rw [lists, (Document.eq_of_ofText opened).1]
    decide +kernel

end Scrapscript
