import Scrapscript.Grammar
import Scrapscript.Text.LineIndex

/-!
A parsed document, and what stands at a position of it. Left out is only what is logged when a text
does not open.
-/

namespace Scrapscript

/-- Why a text has no tree. Errors of syntax are no reason, as these stand in the tree. The parser
never aborts: each of its runs comes to an end, and no call of it is illegal. -/
inductive ParseFailure where
  /-- Offsets into the text do not fit into 32 bits. -/
  | tooLarge (bytes : Nat)
  | tooDeep (limit : Nat)
  | aborted (reason : String)
deriving DecidableEq, Repr

def ParseFailure.message : ParseFailure → String
  | tooLarge bytes => "document is too large to parse (" ++ toString bytes ++ " bytes)"
  | tooDeep limit => "expressions are nested more than " ++ toString limit ++ " levels deep"
  | aborted reason => "parser aborted: " ++ reason

structure Document where
  text : Text
  parse : Parse
  index : LineIndex

namespace Document

/-- Parses a text. Malformed text has a tree too; only a text of 4 GiB or more, or one that nests
beyond the limit, has none. -/
def ofText (text : Text) : Except ParseFailure Document :=
  if UInt32.size ≤ text.bytes then .error (.tooLarge text.bytes)
  else
    let parse := Parse.ofText text
    if parse.tooDeep then .error (.tooDeep Grammar.depthLimit)
    else .ok ⟨text, parse, LineIndex.ofText text⟩

def root (document : Document) : Node :=
  document.parse.root

def hasErrors (document : Document) : Bool :=
  document.root.hasError

def range (document : Document) (start stop : Nat) : Range :=
  document.index.range start stop

def nodeRange (document : Document) (node : Node) : Range :=
  document.range node.start node.stop

def leafRange (document : Document) (leaf : Leaf) : Range :=
  document.range leaf.start leaf.stop

/-- The stretch of the text that a node spans. -/
def source? (document : Document) (node : Node) : Option Text :=
  document.text.slice? node.start node.stop

def offset? (document : Document) (position : Position) : Option Nat :=
  document.index.offset? position

/-- The text of a position's line before the position. -/
def lineBefore (document : Document) (position : Position) : Text :=
  match document.offset? position with
  | none => []
  | some stop =>
      let start := (document.offset? ⟨position.line, 0⟩).getD 0
      (document.text.slice? start stop).getD []

/-- Of the tokens that an offset lies in or touches, the one it belongs to: the left one, unless
that one is trivia and the right one is not. -/
def pick : List Leaf → Option Leaf
  | [] => none
  | [only] => some only
  | left :: right :: _ => if left.isTrivia && !right.isTrivia then some right else some left

def leafAt? (document : Document) (position : Position) : Option Leaf :=
  match document.offset? position with
  | none => none
  | some offset => pick (document.root.touching offset)

/-- The innermost node at a position. There is none only if the position's line does not exist. -/
def locate? (document : Document) (position : Position) : Option Node :=
  match document.offset? position with
  | none => none
  | some _ =>
      match document.leafAt? position with
      | some leaf => leaf.parent?
      | none => some document.root

end Document

end Scrapscript
