import Scrapscript.Grammar.Cursor

/-!
Building blocks of the grammar. A phrase always goes through and places some siblings; a rule tries
to build one node and says whether it was found. The blanks before a rule's node are placed by
whoever applies the rule, so that they stay outside every node that the rule wraps around it.
-/

namespace Scrapscript

/-- Siblings placed in the tree, and the cursor after them. -/
structure Placement where
  trees : List Tree
  rest : Cursor

abbrev Phrase := Cursor → Placement

/-- How an attempt to build one node ends. -/
inductive Outcome where
  | found (node : Tree) (rest : Cursor)
  /-- Nothing of the kind starts here; only blanks were placed. -/
  | absent (rest : Cursor)
  /-- The nesting limit was hit, and the node holds all that was left. -/
  | cut (node : Tree) (rest : Cursor)

abbrev Rule := Cursor → Outcome

namespace Phrase

/-- The blanks before the next significant token. -/
def blanks : Phrase := fun cursor =>
  ⟨Tree.leaves cursor.blanks.tokens, cursor.settled⟩

/-- The next significant token with the blanks before it. -/
def take : Phrase := fun cursor =>
  match cursor.words with
  | [] => blanks cursor
  | word :: _ => ⟨Tree.leaves cursor.blanks.tokens ++ [.leaf word.token], cursor.advanced⟩

def sequence : List Phrase → Phrase
  | [], cursor => ⟨[], cursor⟩
  | phrase :: phrases, cursor =>
      let first := phrase cursor
      let others := sequence phrases first.rest
      ⟨first.trees ++ others.trees, others.rest⟩

def when (condition : Cursor → Bool) (phrase : Phrase) : Phrase := fun cursor =>
  if condition cursor then phrase cursor else ⟨[], cursor⟩

/-- A phrase repeated as long as a condition holds, at most once for each word given. -/
def repeated (condition : Cursor → Bool) (phrase : Phrase) : List Word → Phrase
  | [], cursor => ⟨[], cursor⟩
  | _ :: rounds, cursor =>
      if condition cursor then
        let first := phrase cursor
        let others := repeated condition phrase rounds first.rest
        ⟨first.trees ++ others.trees, others.rest⟩
      else ⟨[], cursor⟩

/-- A phrase repeated as long as a condition holds. Each round uses up a word, so that there are at
most as many rounds as words are left. -/
def many (condition : Cursor → Bool) (phrase : Phrase) : Phrase := fun cursor =>
  repeated condition phrase cursor.words cursor

/-- A node around a phrase, with the blanks before it outside. -/
def enclose (kind : NodeKind) (phrase : Phrase) : Phrase := fun cursor =>
  let inside := phrase cursor.settled
  ⟨Tree.leaves cursor.blanks.tokens ++ [.node kind inside.trees], inside.rest⟩

/-- An empty error node right after the last token placed. -/
def missing (fault : SyntaxFault) : Phrase := fun cursor =>
  ⟨[.node .error []], cursor.report fault cursor.stop cursor.stop⟩

/-- The next significant token in an error node of its own. -/
def reject (fault : SyntaxFault) : Phrase := fun cursor =>
  enclose .error take (cursor.report fault cursor.start cursor.nextStop)

def expect (kind : TokenKind) (fault : SyntaxFault) : Phrase := fun cursor =>
  if cursor.sees kind then take cursor else missing fault cursor

def require (rule : Rule) (fault : SyntaxFault) : Phrase := fun cursor =>
  match rule cursor with
  | .found node rest => ⟨Tree.leaves cursor.blanks.tokens ++ [node], rest⟩
  | .absent rest =>
      let error := missing fault rest
      ⟨Tree.leaves cursor.blanks.tokens ++ error.trees, error.rest⟩
  | .cut node rest =>
      let error := missing fault rest
      ⟨Tree.leaves cursor.blanks.tokens ++ node :: error.trees, error.rest⟩

def allow (rule : Rule) : Phrase := fun cursor =>
  match rule cursor with
  | .found node rest => ⟨Tree.leaves cursor.blanks.tokens ++ [node], rest⟩
  | .absent rest => ⟨Tree.leaves cursor.blanks.tokens, rest⟩
  | .cut node rest => ⟨Tree.leaves cursor.blanks.tokens ++ [node], rest⟩

end Phrase

namespace Rule

def build (kind : NodeKind) (phrase : Phrase) : Rule := fun cursor =>
  let inside := phrase cursor.settled
  .found (.node kind inside.trees) inside.rest

def nothing : Rule := fun cursor =>
  .absent cursor.settled

def settled (rule : Rule) : Rule := fun cursor =>
  rule cursor.settled

/-- A node that becomes the first child of a larger one if a condition holds after it. -/
def extended (rule : Rule) (condition : Cursor → Bool) (kind : NodeKind) (tail : Phrase) : Rule :=
  fun cursor =>
    match rule cursor with
    | .found node rest =>
        if condition rest then
          let others := tail rest
          .found (.node kind (node :: others.trees)) others.rest
        else .found node rest
    | .absent rest => .absent rest
    | .cut node rest => .cut node rest

/-- A larger node around the one just built: its kind and what follows its first child. -/
structure Growth where
  kind : NodeKind
  tail : Phrase

/-- A node wrapped again and again while there is a larger one, at most once for each word
given. -/
def grow (growth : Cursor → Option Growth) : List Word → Tree → Cursor → Outcome
  | [], node, cursor => .found node cursor
  | _ :: rounds, node, cursor =>
      match growth cursor with
      | none => .found node cursor
      | some larger =>
          let others := larger.tail cursor
          grow growth rounds (.node larger.kind (node :: others.trees)) others.rest

/-- A node that becomes the first child of a larger one again and again. Each round uses up a word,
so that there are at most as many rounds as words are left. -/
def grown (rule : Rule) (growth : Cursor → Option Growth) : Rule := fun cursor =>
  match rule cursor with
  | .found node rest => grow growth rest.words node rest
  | .absent rest => .absent rest
  | .cut node rest => .cut node rest

def cutOff : Rule := fun cursor =>
  let start := if cursor.atEnd then cursor.stop else cursor.start
  let inside := Phrase.many (! ·.atEnd) Phrase.take cursor.settled
  .cut (.node .error inside.trees)
    { inside.rest.report .nestedTooDeeply start inside.rest.stop with tooDeep := true }

end Rule

end Scrapscript
