import Scrapscript.Tree

/-!
The state of a parse: the tokens that are left and the errors so far. White space and comments
right after the last token placed are kept apart from the rest, because a rule decides where in
the tree they go.
-/

namespace Scrapscript

inductive SyntaxFault where
  | missingBinding
  | missingBoundExpression
  | missingType
  | missingFunctionBody
  | missingOperand
  | missingFieldName
  | missingTagName
  | missingExpression
  | missingCloser (closer : TokenKind)
  | missingFieldValue
  | missingComma
  | missingPattern
  | missingCondition
  | missingArrow
  | missingCaseBody
  | unexpectedInList
  | unexpectedInRecord
  | unexpected (text : Text)
  /-- A token that no item has used up. -/
  | stalled
  | nestedTooDeeply
deriving DecidableEq

def SyntaxFault.message : SyntaxFault → String
  | missingBinding => "expected binding after ';'"
  | missingBoundExpression => "expected expression after '='"
  | missingType => "expected type after ':'"
  | missingFunctionBody => "expected function body after '->'"
  | missingOperand => "expected expression after operator"
  | missingFieldName => "expected field name after '.'"
  | missingTagName => "expected tag name after '#'"
  | missingExpression => "expected expression"
  | missingCloser closer => "expected '" ++ closer.label ++ "'"
  | missingFieldValue => "expected field value after '='"
  | missingComma => "expected ','"
  | missingPattern => "expected pattern after '|'"
  | missingCondition => "expected guard condition after '?'"
  | missingArrow => "expected '->' after pattern"
  | missingCaseBody => "expected expression after '->'"
  | unexpectedInList => "unexpected token in list"
  | unexpectedInRecord => "expected record field"
  | unexpected text => "unexpected '" ++ text.asString ++ "'"
  | stalled => "unexpected token"
  | nestedTooDeeply => "expression is nested too deeply"

/-- A fault and the byte span that it concerns. -/
structure SyntaxError where
  fault : SyntaxFault
  start : Nat
  stop : Nat
deriving DecidableEq

structure Blanks where
  tokens : List Token
  trivia : ∀ token ∈ tokens, token.isTrivia = true
deriving DecidableEq

namespace Blanks

def empty : Blanks :=
  ⟨[], by simp⟩

def cons (token : Token) (trivia : token.isTrivia = true) (blanks : Blanks) : Blanks :=
  ⟨token :: blanks.tokens, by simpa [trivia] using blanks.trivia⟩

end Blanks

/-- A significant token with the white space and comments that follow it. -/
structure Word where
  token : Token
  significant : token.isTrivia = false
  after : Blanks
deriving DecidableEq

/-- A token run as leading trivia and words. -/
def Word.group : List Token → Blanks × List Word
  | [] => (.empty, [])
  | token :: rest =>
      let (blanks, words) := group rest
      if trivia : token.isTrivia = true then (blanks.cons token trivia, words)
      else (.empty, ⟨token, by simpa using trivia, blanks⟩ :: words)

structure Cursor where
  /-- White space and comments that are not placed yet. -/
  blanks : Blanks
  /-- The significant tokens that are left. -/
  words : List Word
  /-- End of the last token placed. -/
  stop : Nat
  /-- The errors so far, newest first. -/
  errors : List SyntaxError
  tooDeep : Bool

namespace Cursor

def ofTokens (tokens : List Token) : Cursor :=
  let (blanks, words) := Word.group tokens
  ⟨blanks, words, 0, [], false⟩

def remaining (cursor : Cursor) : List Token :=
  cursor.blanks.tokens ++ cursor.words.flatMap (fun word => word.token :: word.after.tokens)

def atEnd (cursor : Cursor) : Bool :=
  cursor.words.isEmpty

def kind? (cursor : Cursor) : Option TokenKind :=
  cursor.words.head?.map (·.token.kind)

def following? (cursor : Cursor) : Option TokenKind :=
  cursor.words.tail.head?.map (·.token.kind)

def sees (cursor : Cursor) (kind : TokenKind) : Bool :=
  cursor.kind? == some kind

/-- Whether the next significant token stands on a later line than the last one placed. -/
def afterLineBreak (cursor : Cursor) : Bool :=
  cursor.blanks.tokens.any Token.breaksLine

def start (cursor : Cursor) : Nat :=
  cursor.stop + Token.widthOf cursor.blanks.tokens

/-- Text of the next significant token, empty at the end. -/
def nextText (cursor : Cursor) : Text :=
  match cursor.words with
  | [] => []
  | word :: _ => word.token.text

def nextStop (cursor : Cursor) : Nat :=
  cursor.start + cursor.nextText.bytes

/-- The cursor once its blanks are placed. -/
def settled (cursor : Cursor) : Cursor :=
  { cursor with blanks := .empty, stop := cursor.start }

/-- The cursor once its blanks and the next significant token are placed. -/
def advanced (cursor : Cursor) : Cursor :=
  match cursor.words with
  | [] => cursor.settled
  | word :: words =>
      { cursor with blanks := word.after, words, stop := cursor.start + word.token.width }

def report (cursor : Cursor) (fault : SyntaxFault) (start stop : Nat) : Cursor :=
  { cursor with errors := ⟨fault, start, stop⟩ :: cursor.errors }

/-- Whether a sign directly before a number starts here. -/
def seesNegative (cursor : Cursor) : Bool :=
  cursor.sees .minus && cursor.following?.any TokenKind.isNumber

end Cursor

/-- Tokens that can begin an argument. A bar and a minus sign cannot: a pattern match needs
parentheses to be an argument, and `f -1` is a subtraction. -/
def TokenKind.startsArgument : TokenKind → Bool
  | ident | underscore | int | float | string | bytes | byte | hash
  | openParen | openBracket | openBrace => true
  | _ => false

namespace Cursor

def seesArgument (cursor : Cursor) : Bool :=
  cursor.kind?.any TokenKind.startsArgument

def seesExpression (cursor : Cursor) : Bool :=
  cursor.seesArgument || cursor.sees .pipe || cursor.seesNegative

end Cursor

end Scrapscript
