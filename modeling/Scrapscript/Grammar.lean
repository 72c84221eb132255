import Scrapscript.Grammar.Expression
import Scrapscript.Token.Lexer
import Scrapscript.Tree.Node

/-!
Parsing a whole document. A parse always yields a tree that holds every token of the document;
malformed stretches become error nodes, each with its entry in the list of errors.
-/

namespace Scrapscript

namespace Grammar

open Scrapscript.Phrase Scrapscript.Rule

/-- How deeply functions and operations may nest. -/
def depthLimit : Nat := 256

def outermost : Level :=
  Level.ofDepth depthLimit

/-- A declaration, or the bare expression before the equals sign. -/
def item : Rule :=
  settled <| (expression outermost).extended (·.sees .equals) .declaration
    (sequence [take, require (expression outermost) .missingBoundExpression])

def sourceItem : Phrase := fun cursor =>
  if cursor.seesExpression then allow item cursor
  else reject (.unexpected cursor.nextText) cursor

def sourceFile : Phrase :=
  sequence [many (! ·.atEnd) sourceItem, blanks]

end Grammar

structure Parse where
  items : List Tree
  /-- The errors in the order in which they were met. -/
  errors : List SyntaxError
  /-- Whether the nesting limit was hit. -/
  tooDeep : Bool

namespace Parse

def ofTokens (tokens : List Token) : Parse :=
  let placement := Grammar.sourceFile (Cursor.ofTokens tokens)
  ⟨placement.trees, placement.rest.errors.reverse, placement.rest.tooDeep⟩

def ofText (text : Text) : Parse :=
  ofTokens (Lexer.tokenize text)

def tree (parse : Parse) : Tree :=
  .node .sourceFile parse.items

def root (parse : Parse) : Node :=
  Node.root .sourceFile parse.items

def isClean (parse : Parse) : Bool :=
  parse.errors.isEmpty

end Parse

end Scrapscript
