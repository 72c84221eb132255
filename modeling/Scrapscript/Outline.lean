import Scrapscript.Document
import Scrapscript.Tree.Parts

/-!
The outline of a document: one symbol for each declaration, nested ones included, in document order.
-/

namespace Scrapscript

inductive SymbolKind where
  | function
  | object
  | array
  | numeric
  | string
  | enumeration
  | variableName
  | classType
  | null
deriving DecidableEq, Repr

/-- The number by which editors know the kind. -/
def SymbolKind.number : SymbolKind → Nat
  | classType => 5
  | enumeration => 10
  | function => 12
  | variableName => 13
  | string => 15
  | numeric => 16
  | array => 18
  | object => 19
  | null => 21

structure Symbol where
  /-- The declaration's pattern in short. -/
  name : String
  kind : SymbolKind
  range : Range
  selection : Range
  detail : String

namespace Symbol

mutual

def patternName : Tree → String
  | .leaf token => token.text.asString
  | .node kind children =>
      match kind with
      | .identifier => (Tree.node kind children).text.trim.asString
      | .tag => "#" ++ (((Tree.node kind children).tagName?).getD []).asString
      | .record => "\x7b...\x7d"
      | .list => "[...]"
      | .parenthesized => "(" ++ (firstPatternName? children).getD "" ++ ")"
      | .ascription => (firstPatternName? children).getD kind.label
      | _ => kind.label

def firstPatternName? : List Tree → Option String
  | [] => none
  | first :: rest => if first.isNode then some (patternName first) else firstPatternName? rest

end

/-- Whether a value is a head applied to a type name. -/
def isTypeApplication (value : Node) : Bool :=
  value.secondNode?.any (·.kind == .identifier)

/-- The kind of symbol that a value makes, and what is said of it. -/
def classify (value : Node) : SymbolKind × String :=
  match value.kind with
  | .function => (.function, "Function")
  | .patternMatch => (.function, "Pattern matching function")
  | .record => (.object, "Record")
  | .list => (.array, "List")
  | .number => (.numeric, "Number")
  | .text => (.string, "Text")
  | .bytes => (.string, "Bytes")
  | .tag => (.enumeration, "Tag")
  | .hole => (.null, "Hole")
  | _ => if isTypeApplication value then (.classType, "Type") else (.variableName, "")

def ofDeclaration? (document : Document) (declaration : Node) : Option Symbol := do
  let pattern ← declaration.firstNode?
  let (kind, detail) := match declaration.boundValue? with
    | some value => classify value
    | none => (.variableName, "")
  return {
    name := patternName pattern.tree
    kind
    range := document.nodeRange declaration
    selection := document.nodeRange pattern
    detail }

end Symbol

def Document.outline (document : Document) : List Symbol :=
  (document.root.ofKind .declaration).filterMap (Symbol.ofDeclaration? document)

end Scrapscript
