import Scrapscript.Grammar.Expression
import Scrapscript.Tree.Parts

/-!
The grammar as a table: which rows of children a node of each kind may have, white space and
comments left out. The parser is shown elsewhere to keep to this table; here the table is only
stated, together with the levels of expressions and the rule by which operators nest.
-/

namespace Scrapscript

namespace NodeKind

/-- The smallest expressions. -/
def isAtom : NodeKind → Bool
  | identifier | placeholder | number | text | bytes | tag | hole | parenthesized | list | record
  | patternMatch => true
  | _ => false

def isAccess (kind : NodeKind) : Bool :=
  kind.isAtom || kind == .fieldAccess

def isApplied (kind : NodeKind) : Bool :=
  kind.isAccess || kind == .application

/-- Two operands and an operator between them. -/
def isOperation (kind : NodeKind) : Bool :=
  kind == .operation || kind == .pipeline

def isBinary (kind : NodeKind) : Bool :=
  kind.isApplied || kind.isOperation

def isFunctional (kind : NodeKind) : Bool :=
  kind.isBinary || kind == .function

def isAscribed (kind : NodeKind) : Bool :=
  kind.isFunctional || kind == .ascription

def isExpression (kind : NodeKind) : Bool :=
  kind.isAscribed || kind == .whereClause

def isElement (kind : NodeKind) : Bool :=
  kind.isAscribed || kind == .spread

def isEntry (kind : NodeKind) : Bool :=
  kind == .recordField || kind == .spread

/-- What is built around an expression that comes first. -/
def isCompound : NodeKind → Bool
  | declaration | whereClause | ascription | function | pipeline | operation | application
  | fieldAccess => true
  | _ => false

/-- What stands at the top of a document. -/
def isItem (kind : NodeKind) : Bool :=
  kind.isExpression || kind == .declaration

end NodeKind

namespace Tree

/-- A row of siblings without its white space and comments. -/
def withoutTrivia (row : List Tree) : List Tree :=
  row.filter (! ·.isTrivia)

/-- Whether the tree is a token of an accepted kind. -/
def isTokenOf (accepts : TokenKind → Bool) : Tree → Bool
  | leaf token => accepts token.kind
  | node _ _ => false

/-- Whether the tree is a node of an accepted kind. -/
def isNodeOf (accepts : NodeKind → Bool) : Tree → Bool
  | leaf _ => false
  | node kind _ => accepts kind

def isToken (kind : TokenKind) : Tree → Bool :=
  isTokenOf (· == kind)

/-- Whether the tree is an error node. -/
def isError : Tree → Bool :=
  isNodeOf (· == .error)

/-- A name, possibly with a type. -/
def isTypedName : Tree → Bool
  | node .identifier _ => true
  | node .ascription children => (nodes children).head?.any (isNodeOf (· == .identifier))
  | _ => false

/-- A declaration of a name. -/
def declaresName : Tree → Bool
  | node .declaration children => (nodes children).head?.any isTypedName
  | _ => false

/-- The operator that an operator's node holds. -/
def operator? : Tree → Option TokenKind
  | node .operator children => (significantTokens children).head?.map Token.kind
  | _ => none

/-- How tightly the outermost operator of an operation binds. Other trees have none. -/
def outerPowers? : Tree → Option (Nat × Nat)
  | leaf _ => none
  | node kind children =>
      if kind.isOperation then
        (children.findSome? operator?).bind Grammar.powers?
      else none

end Tree

namespace Grammar

open Scrapscript.Tree

/-- Whether the trees of a row fill some places, one each. -/
def fills : List (Tree → Bool) → List Tree → Bool
  | [], [] => true
  | place :: places, tree :: row => place tree && fills places row
  | _, _ => false

/-- The place of an item of a collection or of a comma. -/
def orComma (place : Tree → Bool) (tree : Tree) : Bool :=
  tree.isToken .comma || place tree

/-- Whether a row has an opener, any number of items and a closer. -/
def collects (opener item closer : Tree → Bool) : List Tree → Bool
  | [] => false
  | first :: rest => opener first && rest.dropLast.all item && rest.getLast?.any closer

section

-- The trees that may stand for a missing piece.
variable (gap : Tree → Bool)

/-- The place of a node of some level. -/
def nodeOf (level : NodeKind → Bool) (tree : Tree) : Bool :=
  tree.isNodeOf level || gap tree

/-- The place of a closing token. -/
def orGap (place : Tree → Bool) (tree : Tree) : Bool :=
  place tree || gap tree

/-- What may follow the semicolon of a where clause: a declaration is narrower there than at the
top of a document. -/
def isBinding : Tree → Bool
  | .node .declaration children =>
      fills [nodeOf gap NodeKind.isAscribed, isToken .equals, nodeOf gap NodeKind.isAscribed]
        (withoutTrivia children)
  | tree => nodeOf gap NodeKind.isAscribed tree

/-- What may follow the pattern and the guard of a pattern case. -/
def caseEnds : List (List (Tree → Bool)) :=
  [[isToken .arrow, nodeOf gap NodeKind.isFunctional], [gap]]

/-- Whether the grammar allows a node of a kind to have the children in a row. -/
def allows (kind : NodeKind) (row : List Tree) : Bool :=
  match kind with
  | .sourceFile => row.all (nodeOf gap NodeKind.isItem)
  | .declaration =>
      fills [nodeOf gap NodeKind.isExpression, isToken .equals,
        nodeOf gap NodeKind.isExpression] row
  | .whereClause =>
      fills [nodeOf gap NodeKind.isExpression, isToken .semicolon, isBinding gap] row
  | .ascription =>
      fills [nodeOf gap NodeKind.isFunctional, isToken .colon, nodeOf gap NodeKind.isFunctional] row
  | .function =>
      fills [nodeOf gap NodeKind.isBinary, isToken .arrow, nodeOf gap NodeKind.isFunctional] row
  | .pipeline =>
      fills [nodeOf gap NodeKind.isBinary, (·.operator?.any (· == .pipeline)),
        nodeOf gap NodeKind.isBinary] row
  | .operation =>
      fills [nodeOf gap NodeKind.isBinary, (·.operator?.any (· != .pipeline)),
        nodeOf gap NodeKind.isBinary] row
  | .application => fills [nodeOf gap NodeKind.isApplied, nodeOf gap NodeKind.isAccess] row
  | .fieldAccess =>
      fills [nodeOf gap NodeKind.isAccess, isToken .dot, nodeOf gap (· == .identifier)] row
  | .parenthesized =>
      fills [isToken .openParen, nodeOf gap NodeKind.isExpression,
        orGap gap (isToken .closeParen)] row
  | .hole => fills [isToken .openParen, isToken .closeParen] row
  | .tag => fills [isToken .hash, nodeOf gap (· == .identifier)] row
  | .identifier => fills [isToken .ident] row
  | .placeholder => fills [isToken .underscore] row
  | .number =>
      fills [isTokenOf TokenKind.isNumber] row
        || fills [isToken .minus, isTokenOf TokenKind.isNumber] row
  | .text => fills [isToken .string] row
  | .bytes => fills [isTokenOf fun kind => kind == .bytes || kind == .byte] row
  | .operator => fills [isTokenOf TokenKind.isBinaryOperator] row
  | .list =>
      collects (isToken .openBracket) (orComma (nodeOf gap NodeKind.isElement))
        (orGap gap (isToken .closeBracket)) row
  | .record =>
      collects (isToken .openBrace) (orComma (nodeOf gap NodeKind.isEntry))
        (orGap gap (isToken .closeBrace)) row
  | .recordField =>
      fills [isNodeOf (· == .identifier)] row
        || fills [isNodeOf (· == .identifier), isToken .equals, nodeOf gap NodeKind.isAscribed] row
  | .spread =>
      fills [isToken .dotDot] row
        || fills [isToken .dotDot, nodeOf gap NodeKind.isBinary] row
  | .patternMatch => !row.isEmpty && row.all (isNodeOf (· == .patternCase))
  | .patternCase =>
      -- The guard comes between the pattern and the ending.
      (caseEnds gap).any fun ending =>
        fills ([isToken .pipe, nodeOf gap NodeKind.isBinary] ++ ending) row
          || fills ([isToken .pipe, nodeOf gap NodeKind.isBinary,
            isNodeOf (· == .guard)] ++ ending) row
  | .guard => fills [isToken .question, nodeOf gap NodeKind.isBinary] row
  | .error => row.isEmpty || fills [isTokenOf fun _ => true] row

end

/-- Whether operators nest as tightly as they bind: the operator of a left operand binds tighter to
its right than the outer one to its left, and that of a right operand binds at least as tightly to
its left as the outer one to its right. -/
def nests (left operator right : Tree) : Bool :=
  (operator.operator?.bind powers?).any fun outer =>
    left.outerPowers?.all (fun inner => outer.1 < inner.2)
      && right.outerPowers?.all (fun inner => outer.2 ≤ inner.1)

/-- What the grammar asks of a node beyond the kinds of its children. -/
def groups (kind : NodeKind) (row : List Tree) : Bool :=
  match kind, row with
  | .operation, [left, operator, right] | .pipeline, [left, operator, right] =>
      nests left operator right
  | .application, [_, argument] =>
      argument.tokens.head?.any fun token => token.kind != .pipe && token.kind != .minus
  | _, _ => true

end Grammar

end Scrapscript
