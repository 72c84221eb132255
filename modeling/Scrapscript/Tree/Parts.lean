import Scrapscript.Tree.Node

/-!
The parts of a node by their role. They are read off the children by position and kind, and are
missing where a malformed node lacks them.
-/

namespace Scrapscript

namespace Tree

/-- The tokens among some siblings that are not trivia. -/
def significantTokens : List Tree → List Token
  | [] => []
  | leaf token :: rest =>
      if token.isTrivia then significantTokens rest else token :: significantTokens rest
  | node _ _ :: rest => significantTokens rest

def nodes (siblings : List Tree) : List Tree :=
  siblings.filter isNode

def isOfKind (tree : Tree) (kind : NodeKind) : Bool :=
  tree.kind == .node kind

/-- The children of a node, and none of a leaf. -/
def children : Tree → List Tree
  | leaf _ => []
  | node _ children => children

def name? (identifier : Tree) : Option Text :=
  (significantTokens identifier.children).head?.map Token.text

def tagName? (tag : Tree) : Option Text :=
  (tag.children.find? (·.isOfKind .identifier)).bind name?

end Tree

namespace Node

def firstToken? (node : Node) : Option Leaf :=
  node.childLeaves.find? (! ·.isTrivia)

def tokenOf? (node : Node) (kind : TokenKind) : Option Leaf :=
  node.childLeaves.find? (·.kind == kind)

/-- The first child that is a node: the pattern of a declaration or of a field. -/
def firstNode? (node : Node) : Option Node :=
  node.childNodes.head?

/-- The second child that is a node: the binding of a where clause or the value of a field. -/
def secondNode? (node : Node) : Option Node :=
  node.childNodes.tail.head?

/-- The last child node of a declaration after its pattern. -/
def boundValue? (declaration : Node) : Option Node :=
  declaration.childNodes.tail.getLast?

def name? (identifier : Node) : Option Text :=
  identifier.tree.name?

/-- The name of a tag, without the hash. -/
def tagName? (tag : Node) : Option Text :=
  tag.tree.tagName?

def fieldName? (field : Node) : Option Text :=
  match field.firstNode? with
  | some first => if first.kind == .identifier then first.name? else none
  | none => none

def casePattern? (patternCase : Node) : Option Node :=
  patternCase.firstNode?.filter (·.kind != .guard)

def cases (patternMatch : Node) : List Node :=
  patternMatch.childNodes.filter (·.kind == .patternCase)

/-- The elements of a list, spreads included. -/
def elements (list : Node) : List Node :=
  list.childNodes.filter (·.kind != .error)

def fields (record : Node) : List Node :=
  record.childNodes.filter (·.kind == .recordField)

def operatorToken? (operation : Node) : Option Leaf :=
  (operation.childNodes.find? (·.kind == .operator)).bind firstToken?

end Node

end Scrapscript
