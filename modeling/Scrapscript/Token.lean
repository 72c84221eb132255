import Scrapscript.Text

/-!
Tokens: the smallest pieces of a document, each with its kind and its text.
-/

namespace Scrapscript

inductive TokenKind where
  | whitespace
  | comment
  | ident
  | underscore
  | int
  | float
  | string
  | bytes
  | byte
  | openParen
  | closeParen
  | openBracket
  | closeBracket
  | openBrace
  | closeBrace
  | comma
  | semicolon
  | colon
  | dot
  | dotDot
  | hash
  | equals
  | arrow
  | pipe
  | question
  | plus
  | minus
  | star
  | slash
  | percent
  | caret
  | equal
  | notEqual
  | less
  | greater
  | lessEqual
  | greaterEqual
  | logicalAnd
  | logicalOr
  | concat
  | cons
  | snoc
  | pipeline
  | compose
  | composeBack
  | error
deriving DecidableEq, Repr

namespace TokenKind

/-- The kinds that a well-formed text consists of, in the order in which they are numbered. -/
def numbered : List TokenKind :=
  [whitespace, comment, ident, underscore, int, float, string, bytes, byte,
    openParen, closeParen, openBracket, closeBracket, openBrace, closeBrace, comma, semicolon,
    colon, dot, dotDot, hash, equals, arrow, pipe, question,
    plus, minus, star, slash, percent, caret, equal, notEqual, less, greater, lessEqual,
    greaterEqual, logicalAnd, logicalOr, concat, cons, snoc, pipeline, compose, composeBack]

/-- A kind's name: its spelling where it has only one. -/
def label : TokenKind → String
  | whitespace => "whitespace"
  | comment => "comment"
  | ident => "ident"
  | underscore => "_"
  | int => "int_number"
  | float => "float_number"
  | string => "string"
  | bytes => "bytes_lit"
  | byte => "byte_lit"
  | openParen => "("
  | closeParen => ")"
  | openBracket => "["
  | closeBracket => "]"
  | openBrace => "\x7b"
  | closeBrace => "\x7d"
  | comma => ","
  | semicolon => ";"
  | colon => ":"
  | dot => "."
  | dotDot => ".."
  | hash => "#"
  | equals => "="
  | arrow => "->"
  | pipe => "|"
  | question => "?"
  | plus => "+"
  | minus => "-"
  | star => "*"
  | slash => "/"
  | percent => "%"
  | caret => "^"
  | equal => "=="
  | notEqual => "!="
  | less => "<"
  | greater => ">"
  | lessEqual => "<="
  | greaterEqual => ">="
  | logicalAnd => "&&"
  | logicalOr => "||"
  | concat => "++"
  | cons => ">+"
  | snoc => "+<"
  | pipeline => "|>"
  | compose => ">>"
  | composeBack => "<<"
  | error => "ERROR"

/-- Whitespace and comments carry no structure. -/
def isTrivia : TokenKind → Bool
  | whitespace | comment => true
  | _ => false

def isPunctuation : TokenKind → Bool
  | openParen | closeParen | openBracket | closeBracket | openBrace | closeBrace | comma
  | semicolon | colon | dot | dotDot | hash | equals | arrow | pipe | question => true
  | _ => false

def isBinaryOperator : TokenKind → Bool
  | plus | minus | star | slash | percent | caret | equal | notEqual | less | greater
  | lessEqual | greaterEqual | logicalAnd | logicalOr | concat | cons | snoc | pipeline
  | compose | composeBack => true
  | _ => false

def isNumber : TokenKind → Bool
  | int | float => true
  | _ => false

def isLiteral : TokenKind → Bool
  | int | float | string | bytes | byte => true
  | _ => false

end TokenKind

structure Token where
  kind : TokenKind
  text : Text
deriving DecidableEq, Repr

namespace Token

/-- Bytes that the token takes up in its document. -/
def width (token : Token) : Nat :=
  token.text.bytes

def isTrivia (token : Token) : Bool :=
  token.kind.isTrivia

def breaksLine (token : Token) : Bool :=
  token.kind == .whitespace && token.text.contains '\n'

/-- Tokens with the offsets at which they start, counted from `start`. The offset is no part of a
token but the sum of the widths before it, which is below `2 ^ 32` in any text that opens as a
document. -/
def located (start : Nat) : List Token → List (Token × Nat)
  | [] => []
  | token :: rest => (token, start) :: located (start + token.width) rest

def widthOf : List Token → Nat
  | [] => 0
  | token :: rest => token.width + widthOf rest

def textOf (tokens : List Token) : Text :=
  tokens.flatMap Token.text

end Token

end Scrapscript
