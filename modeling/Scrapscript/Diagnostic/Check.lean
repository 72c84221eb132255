import Scrapscript.Diagnostic
import Scrapscript.Document
import Scrapscript.Settings
import Scrapscript.Tree.Parts
import Scrapscript.Tree.Number

/-!
Checks on the structure of a document beyond its grammar. Each looks at the whole tree and reports
in document order. Left out are the names of the checks and what is said of one that fails, which
only a log shows.
-/

namespace Scrapscript

/-- The type of a list element, as far as its form shows it. -/
inductive ElementType where
  | int
  | float
  | text
  | bytes
  | tag
  | list
  | record
  | function
  | hole
deriving DecidableEq, Repr

def ElementType.label : ElementType → String
  | int => "int"
  | float => "float"
  | text => "text"
  | bytes => "bytes"
  | tag => "tag"
  | list => "list"
  | record => "record"
  | function => "function"
  | hole => "hole"

namespace Node

/-- The type that a node's form shows. Names, operations and applications of anything but tags
show none. -/
def elementType? (node : Node) : Option ElementType :=
  match node.kind with
  | .number => some (if node.isFloat then .float else .int)
  | .text => some .text
  | .bytes => some .bytes
  | .tag => some .tag
  | .application =>
      if node.firstNode?.any (·.kind == .tag) then some .tag else none
  | .list => some .list
  | .record => some .record
  | .function | .patternMatch => some .function
  | .hole => some .hole
  | _ => none

end Node

namespace Check

/-- Patterns that match any value. -/
def isCatchAll (pattern : Node) : Bool :=
  pattern.kind == .identifier || pattern.kind == .placeholder || pattern.kind == .hole

/-- Pattern matches none of whose patterns matches any value. -/
def exhaustiveness (document : Document) : List Diagnostic :=
  (document.root.ofKind .patternMatch).filterMap fun node =>
    let patterns := node.cases.filterMap Node.casePattern?
    if !patterns.isEmpty && !patterns.any isCatchAll then
      some (.warning (document.nodeRange node) .nonExhaustive
        ("Pattern match may not be exhaustive: "
          ++ "consider adding a catch-all case '| _ -> ...'"))
    else none

/-- The distinct types of a list's elements, in the order in which they first appear. -/
def elementTypes (list : Node) : List ElementType :=
  (list.elements.filterMap Node.elementType?).foldl
    (fun types type => if types.contains type then types else types ++ [type]) []

def homogeneity (document : Document) : List Diagnostic :=
  (document.root.ofKind .list).filterMap fun node =>
    let types := elementTypes node
    if 1 < types.length then
      some (.error (document.nodeRange node) .mixedList
        ("List contains elements of different types: "
          ++ ", ".intercalate (types.map ElementType.label)))
    else none

def bindsName (pattern : Node) : Bool :=
  pattern.kind == .identifier
    || (pattern.kind == .ascription && pattern.firstNode?.any (·.kind == .identifier))

/-- A name, possibly with a type, and a value. -/
def isBinding (node : Node) : Bool :=
  node.kind == .declaration && node.firstNode?.any bindsName
    && node.secondNode?.any (·.kind != .error)

/-- Where clauses whose binding is not a name with a value. -/
def whereClauses (document : Document) : List Diagnostic :=
  (document.root.ofKind .whereClause).filterMap fun node =>
    if (node.tokenOf? .semicolon).isSome && node.secondNode?.any isBinding then none
    else
      some (.error (document.nodeRange (node.secondNode?.getD node)) .malformedWhere
        "Where clause must have the form '; name = expression'")

def recordFields (document : Document) : List Diagnostic :=
  (document.root.ofKind .recordField).filterMap fun node =>
    if 2 ≤ node.childNodes.length then none
    else
      let name := (node.fieldName?.getD []).asString
      some (.error (document.nodeRange node) .fieldWithoutValue
        ("Record field '" ++ name ++ "' has no value: expected '" ++ name ++ " = value'"))

/-- What stands in a list, as far as its separators are concerned. -/
inductive ListPart where
  | opener
  | comma
  | closer
  | other
deriving DecidableEq, Repr

/-- The role of a list's child. Trivia and error nodes have none. -/
def listPart? : Tree → Option ListPart
  | .leaf token =>
      match token.kind with
      | .whitespace | .comment => none
      | .openBracket => some .opener
      | .comma => some .comma
      | .closeBracket => some .closer
      | _ => some .other
  | .node .error _ => none
  | .node _ _ => some .other

/-- What is wrong with the first two neighbours that do not go together. -/
def separatorProblem? : List ListPart → Option String
  | .comma :: .comma :: _ => some "Invalid list syntax: empty element between commas"
  | .opener :: .comma :: _ => some "Invalid list syntax: leading comma"
  | .comma :: .closer :: _ => some "Invalid list syntax: trailing comma"
  | _ :: rest => separatorProblem? rest
  | [] => none

/-- Lists with an empty slot. -/
def listSeparators (document : Document) : List Diagnostic :=
  (document.root.ofKind .list).filterMap fun node =>
    (separatorProblem? (node.children.filterMap listPart?)).map fun message =>
      .error (document.nodeRange node) .listSeparator message

def lacksArrow (node : Node) : Bool :=
  (node.kind == .function || node.kind == .patternCase) && (node.tokenOf? .arrow).isNone

end Check

/-- Why a check cannot inspect a node. -/
inductive CheckFailure where
  /-- The node does not span a stretch of the text. -/
  | outOfBounds (start stop : Nat)
deriving DecidableEq, Repr

namespace Check

/-- What is wrong with a node that lacks its arrow. A pattern case is quoted from the text. -/
def arrowProblem (document : Document) (node : Node) : Except CheckFailure String :=
  if node.kind == .function then .ok "Function is missing '->' between its parameter and body"
  else
    match document.source? node with
    | none => .error (.outOfBounds node.start node.stop)
    | some source =>
        .ok ("Pattern case '" ++ source.trim.asString ++ "' is missing '->' before its body")

def arrows (document : Document) : Except CheckFailure (List Diagnostic) :=
  (document.root.descendants.filter lacksArrow).mapM fun node => do
    let message ← arrowProblem document node
    return .error (document.nodeRange node) .withoutArrow message

end Check

structure Check where
  enabled : Settings → Bool
  run : Document → Except CheckFailure (List Diagnostic)

namespace Check

/-- A check that can inspect every node. -/
def total (enabled : Settings → Bool) (find : Document → List Diagnostic) : Check :=
  ⟨enabled, fun document => .ok (find document)⟩

/-- The checks in the order in which they report. -/
def all : List Check := [
  total Settings.exhaustiveness exhaustiveness,
  total Settings.typeChecking homogeneity,
  total Settings.validation whereClauses,
  total Settings.validation recordFields,
  total Settings.validation listSeparators,
  ⟨Settings.validation, arrows⟩
]

/-- What a check finds in a document. One that fails is skipped. -/
def report (check : Check) (document : Document) : List Diagnostic :=
  match check.run document with
  | .error _ => []
  | .ok found => found

end Check

end Scrapscript
