import Scrapscript.Catalog
import Scrapscript.Document

/-!
References to a name and their renaming. All identifiers that are spelled alike refer to one name,
whatever binds them; the names of tags are no identifiers in this sense.
-/

namespace Scrapscript

structure Location where
  uri : String
  range : Range
deriving DecidableEq

structure TextEdit where
  range : Range
  replacement : String
deriving DecidableEq

structure WorkspaceEdit where
  changes : List (String × List TextEdit)
deriving DecidableEq

def WorkspaceEdit.size (edit : WorkspaceEdit) : Nat :=
  (edit.changes.flatMap Prod.snd).length

def WorkspaceEdit.isEmpty (edit : WorkspaceEdit) : Bool :=
  edit.changes.all fun change => change.2.isEmpty

structure RenameTarget where
  range : Range
  name : String
deriving DecidableEq

namespace Document

/-- Whether a node is an identifier that does not name a tag. -/
def isReference (node : Node) : Bool :=
  node.kind == .identifier && !node.parentIs .tag

def referenceAt? (document : Document) (position : Position) : Option Node :=
  (document.locate? position).filter isReference

/-- The identifiers that are spelled like the one at a position, in document order. -/
def referencesAt (document : Document) (position : Position) : List Node :=
  match document.referenceAt? position with
  | none => []
  | some target =>
      document.root.descendants.filter fun node => isReference node && node.text == target.text

def references (document : Document) (uri : String) (position : Position) : List Location :=
  (document.referencesAt position).map fun node => ⟨uri, document.nodeRange node⟩

/-- The name at a position, unless it is reserved or built in. -/
def renameTarget? (document : Document) (position : Position) : Option RenameTarget := do
  let target ← document.referenceAt? position
  let name := target.text.asString
  if Catalog.isKeyword name || Catalog.isBuiltin name then none
  else some ⟨document.nodeRange target, name⟩

/-- The edits that replace the name at a position by another wherever it is used. -/
def rename? (document : Document) (uri : String) (position : Position) (name : String) :
    Option WorkspaceEdit :=
  match document.references uri position with
  | [] => none
  | locations => some ⟨[(uri, locations.map fun location => ⟨location.range, name⟩)]⟩

end Document

end Scrapscript
