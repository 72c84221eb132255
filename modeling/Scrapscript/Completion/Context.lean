import Scrapscript.Completion
import Scrapscript.Document
import Scrapscript.Token.Lexer

/-!
What is being typed at a position, decided by the text of the line before it and by the node that it
stands in. The first rule that applies decides.
-/

namespace Scrapscript

namespace Completion

def isOperatorChar (char : Char) : Bool :=
  "+-*/%^=!<>&|".toList.contains char

def isIdentifierChar (char : Char) : Bool :=
  Lexer.isWord char || char == '-' || char == '/'

def hasWord (word text : Text) : Bool :=
  (text.pieces (! isIdentifierChar ·)).contains word

/-- Whether a text starts with the bar of a pattern case, and not with a longer operator. -/
def opensCase (text : Text) : Bool :=
  "|".toList.isPrefixOf text && !"|>".toList.isPrefixOf text && !"||".toList.isPrefixOf text

def Hint.ofText (text : Text) : Hint :=
  let mentions (needles : List String) : Bool :=
    needles.any fun needle => Text.mentions needle.toList text
  if mentions ["[", "list/"] then .list
  else if mentions ["maybe/", "#some", "#none"] then .maybe
  else if mentions ["result/", "#ok", "#error"] then .result
  else .unknown

def followsDot (node : Node) : Bool :=
  node.previousToken?.any (·.kind == .dot) && (node.enclosing? .declaration).isSome

/-- What is piped, if the position is in a pipeline. -/
def pipelineHint? (node : Node) (before : Text) : Option Hint :=
  match node.enclosing? .pipeline with
  | some pipeline => some (.ofText pipeline.text)
  | none => if Text.mentions "|>".toList before then some (.ofText before) else none

/-- What is being typed in a node after the given text of its line; a type also in the nodes that
`typed` names. -/
def classifyBy (typed : Node → Bool) (node : Node) (before : Text) : Context :=
  let trimmed := before.trimStart
  if before.contains '#' || node.kind == .tag || node.parentIs .tag then .tag
  else if trimmed.head? == some ';' || (node.enclosing? .whereClause).isSome then .whereClause
  else if opensCase trimmed || (node.enclosing? .patternMatch).isSome then .patternMatch
  else if before.contains '.' || node.parentIs .fieldAccess then .recordField
  else if Text.mentions " : ".toList before || node.parentIs .ascription || typed node then
    .ascription
  else
    match pipelineHint? node before with
    | some hint => .pipeline hint
    | none =>
        if hasWord "import".toList before || hasWord "use".toList before then .importing
        else if node.parentIs .application then .functionCall
        else if node.kind == .operator || before.getLast?.any isOperatorChar then .operator
        else .global

/-- A type is also looked for after a dot. -/
def classify : Node → Text → Context :=
  classifyBy followsDot

def contextAt (document : Document) (position : Position) : Context :=
  match document.locate? position with
  | none => .global
  | some node => classify node (document.lineBefore position)

def suggestions (document : Document) (position : Position) : List Completion :=
  inContext (contextAt document position)

end Completion

end Scrapscript
