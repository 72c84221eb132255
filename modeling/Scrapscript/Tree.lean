import Scrapscript.Token

/-!
The tree of a document. Leaves are tokens, white space and comments included, so that a tree spells
its document. Nodes carry no offsets: where a node stands follows from the widths of what is before
it, and equal trees are equal wherever they stand.
-/

namespace Scrapscript

inductive NodeKind where
  | sourceFile
  | declaration
  | whereClause
  | ascription
  | function
  | pipeline
  | operation
  | application
  | fieldAccess
  | parenthesized
  | identifier
  | placeholder
  | number
  | text
  | bytes
  | hole
  | operator
  | tag
  | list
  | spread
  | record
  | recordField
  | patternMatch
  | patternCase
  | guard
  | error
deriving DecidableEq, Repr

namespace NodeKind

/-- The node kinds in the order in which they are numbered. -/
def numbered : List NodeKind :=
  [sourceFile, declaration, whereClause, ascription, function, pipeline, operation, application,
    fieldAccess, parenthesized, identifier, placeholder, number, text, bytes, hole, operator, tag,
    list, spread, record, recordField, patternMatch, patternCase, guard, error]

def label : NodeKind → String
  | sourceFile => "source_file"
  | declaration => "declaration"
  | whereClause => "where"
  | ascription => "type_annotation"
  | function => "function"
  | pipeline => "pipeline"
  | operation => "infix"
  | application => "apply"
  | fieldAccess => "record_access"
  | parenthesized => "parenthesized"
  | identifier => "identifier"
  | placeholder => "placeholder"
  | number => "number"
  | text => "text"
  | bytes => "bytes"
  | hole => "hole"
  | operator => "operator"
  | tag => "tag"
  | list => "list"
  | spread => "spread"
  | record => "record"
  | recordField => "record_field"
  | patternMatch => "pattern_match"
  | patternCase => "pattern_case"
  | guard => "guard"
  | error => "ERROR"

end NodeKind

/-- What can stand in a tree: a kind of token or a kind of node. -/
inductive Kind where
  | token (kind : TokenKind)
  | node (kind : NodeKind)
deriving DecidableEq, Repr

namespace Kind

/-- All kinds in the order in which they are numbered. Error tokens share the number of error
nodes, which comes last. -/
def numbered : List Kind :=
  TokenKind.numbered.map token ++ NodeKind.numbered.map node

def ofNumber? (number : Nat) : Option Kind :=
  numbered[number]?

def label : Kind → String
  | token kind => kind.label
  | node kind => kind.label

def isTrivia : Kind → Bool
  | token kind => kind.isTrivia
  | node _ => false

def isPunctuation : Kind → Bool
  | token kind => kind.isPunctuation
  | node _ => false

def isBinaryOperator : Kind → Bool
  | token kind => kind.isBinaryOperator
  | node _ => false

def isLiteral : Kind → Bool
  | token kind => kind.isLiteral
  | node _ => false

/-- Error tokens count as nodes, since they share their number. -/
def isNode : Kind → Bool
  | token kind => kind == .error
  | node _ => true

end Kind

inductive Tree where
  | leaf (token : Token)
  | node (kind : NodeKind) (children : List Tree)

namespace Tree

mutual

/-- The leaves of a tree from left to right. -/
def tokens : Tree → List Token
  | leaf token => [token]
  | node _ children => tokensOf children

def tokensOf : List Tree → List Token
  | [] => []
  | first :: rest => first.tokens ++ tokensOf rest

end

def text (tree : Tree) : Text :=
  Token.textOf tree.tokens

mutual

/-- Bytes that the tree takes up in its document. -/
def width : Tree → Nat
  | leaf token => token.width
  | node _ children => widthOf children

def widthOf : List Tree → Nat
  | [] => 0
  | first :: rest => first.width + widthOf rest

end

mutual

/-- Whether some node of the tree is an error node. -/
def hasError : Tree → Bool
  | leaf _ => false
  | node kind children => kind == .error || hasErrorIn children

def hasErrorIn : List Tree → Bool
  | [] => false
  | first :: rest => first.hasError || hasErrorIn rest

end

def kind : Tree → Kind
  | leaf token => .token token.kind
  | node kind _ => .node kind

def isNode : Tree → Bool
  | leaf _ => false
  | node _ _ => true

def isTrivia : Tree → Bool
  | leaf token => token.isTrivia
  | node _ _ => false

def leaves (tokens : List Token) : List Tree :=
  tokens.map leaf

end Tree

end Scrapscript
