import Scrapscript.Catalog
import Scrapscript.Document

/-!
Highlighting: the class of each token that has one, line by line in document order.
-/

namespace Scrapscript

inductive HighlightKind where
  | comment
  | number
  | string
  | enumMember
  | operator
  | function
  | keyword
  | variableName
deriving DecidableEq, Repr

namespace HighlightKind

/-- The kinds in the order in which they are announced to clients. -/
def legend : List HighlightKind :=
  [comment, number, string, enumMember, operator, function, keyword, variableName]

def label : HighlightKind → String
  | comment => "comment"
  | number => "number"
  | string => "string"
  | enumMember => "enumMember"
  | operator => "operator"
  | function => "function"
  | keyword => "keyword"
  | variableName => "variable"

def index (kind : HighlightKind) : Nat :=
  legend.idxOf kind

end HighlightKind

structure Highlight where
  line : Nat
  column : Nat
  /-- Length in UTF-16 units. -/
  length : Nat
  kind : HighlightKind
  /-- Whether it is the name that a declaration binds. -/
  isDeclaration : Bool
deriving DecidableEq, Repr

namespace Highlight

/-- The modifiers in the order in which they are announced to clients. -/
def modifierLegend : List String := ["declaration"]

def modifiers (highlight : Highlight) : Nat :=
  if highlight.isDeclaration then 1 else 0

def noNodes (siblings : List Tree) : Bool :=
  siblings.all (! ·.isNode)

/-- Whether a node with the given surroundings is the pattern of a declaration, possibly under a
type. -/
def isDeclared : List Frame → Bool
  | [] => false
  | [parent] => parent.kind == .declaration && noNodes parent.before
  | parent :: outer :: _ =>
      if parent.kind == .declaration then noNodes parent.before
      else parent.kind == .ascription && outer.kind == .declaration && noNodes outer.before
        && noNodes parent.before

/-- The class of an identifier whose node has the given surroundings. -/
def classifyName (name : String) (above : List Frame) : HighlightKind × Bool :=
  if above.head?.any (·.kind == .tag) then (.enumMember, false)
  else if Catalog.isBuiltin name then (.function, false)
  else if Catalog.isKeyword name then (.keyword, false)
  else (.variableName, isDeclared above)

/-- The class of a token, and whether a declaration binds it. -/
def classify? (leaf : Leaf) : Option (HighlightKind × Bool) :=
  match leaf.kind with
  | .comment => some (.comment, false)
  | .int | .float => some (.number, false)
  | .minus =>
      if leaf.above.head?.any (·.kind == .number) then some (.number, false)
      else some (.operator, false)
  | .string | .bytes | .byte => some (.string, false)
  | .hash => some (.enumMember, false)
  | .ident => some (classifyName leaf.text.asString leaf.above.tail)
  | .arrow | .equals | .colon | .pipe | .question | .dotDot => some (.operator, false)
  | kind => if kind.isBinaryOperator then some (.operator, false) else none

/-- The highlights of a token's lines. A line's carriage return is left out, and an empty line has
no highlight. -/
def ofLines (index : LineIndex) (kind : HighlightKind) (isDeclaration : Bool) :
    Nat → List Text → List Highlight
  | _, [] => []
  | offset, line :: more =>
      let content := line.withoutLast '\r'
      let rest := ofLines index kind isDeclaration (offset + line.bytes + 1) more
      if content.isEmpty then rest
      else
        let start := index.position offset
        ⟨start.line, start.character, content.units, kind, isDeclaration⟩ :: rest

def ofLeaf (index : LineIndex) (leaf : Leaf) : List Highlight :=
  match classify? leaf with
  | none => []
  | some (kind, isDeclaration) => ofLines index kind isDeclaration leaf.start leaf.text.lines

end Highlight

def Document.highlights (document : Document) : List Highlight :=
  document.root.leaves.flatMap (Highlight.ofLeaf document.index)

end Scrapscript
