import Scrapscript.Tree

/-!
Nodes and leaves in their place: each knows where it starts and what encloses it. All navigation
through a document goes through these, upwards along the enclosing frames and downwards through
the children.
-/

namespace Scrapscript

/-- An enclosing node, seen from one of its children. -/
structure Frame where
  kind : NodeKind
  start : Nat
  /-- The siblings before the child, nearest first. -/
  before : List Tree
  /-- The siblings after the child, nearest first. -/
  after : List Tree

/-- A node in its place, with the nodes around it from the nearest to the root. -/
structure Node where
  kind : NodeKind
  children : List Tree
  start : Nat
  above : List Frame

structure Leaf where
  token : Token
  start : Nat
  above : List Frame

inductive Place where
  | node (node : Node)
  | leaf (leaf : Leaf)

namespace Leaf

def stop (leaf : Leaf) : Nat :=
  leaf.start + leaf.token.width

def kind (leaf : Leaf) : TokenKind :=
  leaf.token.kind

def text (leaf : Leaf) : Text :=
  leaf.token.text

def isTrivia (leaf : Leaf) : Bool :=
  leaf.token.isTrivia

def parent? (leaf : Leaf) : Option Node :=
  match leaf.above with
  | [] => none
  | frame :: above =>
      some ⟨frame.kind, frame.before.reverse ++ .leaf leaf.token :: frame.after, frame.start, above⟩

end Leaf

namespace Place

def node? : Place → Option Node
  | node found => some found
  | leaf _ => none

def leaf? : Place → Option Leaf
  | node _ => none
  | leaf found => some found

/-- A tree with a given start and surroundings. -/
def ofTree (above : List Frame) (start : Nat) : Tree → Place
  | .leaf token => leaf ⟨token, start, above⟩
  | .node kind children => node ⟨kind, children, start, above⟩

def row (kind : NodeKind) (origin : Nat) (above : List Frame) (before : List Tree) (start : Nat) :
    List Tree → List Place
  | [] => []
  | first :: rest =>
      ofTree (⟨kind, origin, before, rest⟩ :: above) start first
        :: row kind origin above (first :: before) (start + first.width) rest

mutual

/-- A tree and everything below it, each node before its children. -/
def preorder (above : List Frame) (start : Nat) : Tree → List Place
  | .leaf token => [leaf ⟨token, start, above⟩]
  | .node kind children =>
      node ⟨kind, children, start, above⟩ :: preorderOf kind start above [] start children

def preorderOf (kind : NodeKind) (origin : Nat) (above : List Frame) (before : List Tree)
    (start : Nat) : List Tree → List Place
  | [] => []
  | first :: rest =>
      preorder (⟨kind, origin, before, rest⟩ :: above) start first
        ++ preorderOf kind origin above (first :: before) (start + first.width) rest

end

mutual

/-- The tokens of a tree that an offset lies in or touches. Of the children of a node, the search
goes only into those that are not empty and have the offset inside of them or at an end. -/
def touching (offset : Nat) (above : List Frame) (start : Nat) : Tree → List Leaf
  | .leaf token => [⟨token, start, above⟩]
  | .node kind children => touchingOf offset kind start above [] start children

def touchingOf (offset : Nat) (kind : NodeKind) (origin : Nat) (above : List Frame)
    (before : List Tree) (start : Nat) : List Tree → List Leaf
  | [] => []
  | first :: rest =>
      let others := touchingOf offset kind origin above (first :: before) (start + first.width) rest
      if 0 < first.width ∧ start ≤ offset ∧ offset ≤ start + first.width then
        touching offset (⟨kind, origin, before, rest⟩ :: above) start first ++ others
      else others

end

end Place

namespace Node

def root (kind : NodeKind) (children : List Tree) : Node :=
  ⟨kind, children, 0, []⟩

def tree (node : Node) : Tree :=
  .node node.kind node.children

def stop (node : Node) : Nat :=
  node.start + Tree.widthOf node.children

def text (node : Node) : Text :=
  node.tree.text

/-- The node and the nodes around it, from the inside out. -/
def ancestorsFrom (kind : NodeKind) (children : List Tree) (start : Nat) :
    List Frame → List Node
  | [] => [⟨kind, children, start, []⟩]
  | frame :: above =>
      ⟨kind, children, start, frame :: above⟩
        :: ancestorsFrom frame.kind (frame.before.reverse ++ .node kind children :: frame.after)
          frame.start above

/-- The node itself and its ancestors, ending with the root. -/
def ancestors (node : Node) : List Node :=
  ancestorsFrom node.kind node.children node.start node.above

def parentKind? (node : Node) : Option NodeKind :=
  node.above.head?.map Frame.kind

def parentIs (node : Node) (kind : NodeKind) : Bool :=
  node.parentKind? == some kind

/-- The node itself or its nearest ancestor of a kind. -/
def enclosing? (node : Node) (kind : NodeKind) : Option Node :=
  node.ancestors.find? (·.kind == kind)

def places (node : Node) : List Place :=
  Place.row node.kind node.start node.above [] node.start node.children

def childNodes (node : Node) : List Node :=
  node.places.filterMap Place.node?

def childLeaves (node : Node) : List Leaf :=
  node.places.filterMap Place.leaf?

/-- The node and everything below it, each node before its children. -/
def walk (node : Node) : List Place :=
  Place.preorder node.above node.start node.tree

/-- The node and the nodes below it, each before its children. -/
def descendants (node : Node) : List Node :=
  node.walk.filterMap Place.node?

def leaves (node : Node) : List Leaf :=
  node.walk.filterMap Place.leaf?

/-- The tokens of the node that an offset lies in or touches. -/
def touching (node : Node) (offset : Nat) : List Leaf :=
  Place.touching offset node.above node.start node.tree

def ofKind (node : Node) (kind : NodeKind) : List Node :=
  node.descendants.filter (·.kind == kind)

/-- Whether the node is an error node or contains one. -/
def hasError (node : Node) : Bool :=
  node.tree.hasError

/-- The nearest sibling that is not trivia, in its place, if it is a token. The siblings are listed
nearest first, and the first of them ends at `stop`. -/
def tokenBefore? (above : List Frame) (kind : NodeKind) (origin : Nat) (after : List Tree)
    (stop : Nat) : List Tree → Option Leaf
  | [] => none
  | .node _ _ :: _ => none
  | .leaf token :: before =>
      if token.isTrivia then
        tokenBefore? above kind origin (.leaf token :: after) (stop - token.width) before
      else some ⟨token, stop - token.width, ⟨kind, origin, before, after⟩ :: above⟩

/-- The nearest sibling before the node that is not trivia, if it is a token. -/
def previousToken? (node : Node) : Option Leaf :=
  match node.above with
  | [] => none
  | frame :: above =>
      tokenBefore? above frame.kind frame.start (node.tree :: frame.after) node.start frame.before

end Node

end Scrapscript
